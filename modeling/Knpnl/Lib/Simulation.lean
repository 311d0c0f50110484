import Knpnl.Lib.Reach

/-!
# Simulations

One machine does what another one does, as far as the other one sees its state: every admitted
input of the first is a list of admitted inputs of the second. Then every run of the first is a run
of the second, and what the second never leaves the first never leaves either.
-/
namespace Knpnl.Lib

variable {σ τ α β : Type*}

/-- While `I` holds, an admitted input does to what `abs` sees what the inputs `act` do. -/
structure Simulation (run : σ → α → σ) (ok : σ → α → Prop) (run' : τ → β → τ) (ok' : τ → β → Prop) where
  I : σ → Prop
  abs : σ → τ
  act : σ → α → List β
  kept : ∀ s a, I s → ok s a → I (run s a)
  admits : ∀ s a, I s → ok s a → Along run' ok' (abs s) (act s a)
  commutes : ∀ s a, I s → ok s a → abs (run s a) = (act s a).foldl run' (abs s)

namespace Simulation

variable {run : σ → α → σ} {ok : σ → α → Prop} {run' : τ → β → τ} {ok' : τ → β → Prop}
  {s : σ} {inputs : List α}

/-- What a run is to the second machine. -/
def acts (m : Simulation run ok run' ok') (s : σ) (inputs : List α) : List β := outputs run m.act s inputs

theorem final (m : Simulation run ok run' ok') (hI : m.I s) (h : Along run ok s inputs) :
    m.abs (inputs.foldl run s) = (m.acts s inputs).foldl run' (m.abs s) := by
  induction inputs generalizing s with
  | nil => rfl
  | cons a inputs ih =>
    rw [List.foldl_cons, ih (m.kept s a hI h.1) h.2, m.commutes s a hI h.1, acts, acts, outputs,
      List.foldl_append]

theorem along (m : Simulation run ok run' ok') (hI : m.I s) (h : Along run ok s inputs) :
    Along run' ok' (m.abs s) (m.acts s inputs) := by
  induction inputs generalizing s with
  | nil => trivial
  | cons a inputs ih =>
    have hrest := ih (m.kept s a hI h.1) h.2
    rw [m.commutes s a hI h.1] at hrest
    exact along_append.mpr ⟨m.admits s a hI h.1, hrest⟩

/-- What every admitted input of the second machine keeps, every run of the first keeps. -/
theorem invariant (m : Simulation run ok run' ok') {Q : τ → Prop} (hstep : ∀ t b, Q t → ok' t b → Q (run' t b))
    (hI : m.I s) (hs : Q (m.abs s)) (h : Along run ok s inputs) : Q (m.abs (inputs.foldl run s)) := by
  rw [m.final hI h]
  exact (m.along hI h).invariant hstep hs

end Simulation
end Knpnl.Lib
