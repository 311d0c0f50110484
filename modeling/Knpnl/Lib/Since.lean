import Knpnl.Lib.Reach
import Mathlib.Data.List.Induction

/-!
# What has come since

Inputs of one kind turn something on and inputs of another turn it off. It is on at the end of a run
if one of the first kind has come and none of the second since.
-/
namespace Knpnl.Lib

variable {σ α : Type*} {on off : α → Prop} {inputs : List α}

/-- An input of the first kind has come, and none of the second after it. -/
def Since (on off : α → Prop) (inputs : List α) : Prop :=
  ∃ before a after, inputs = before ++ a :: after ∧ on a ∧ ∀ b ∈ after, ¬ off b

theorem not_since_nil : ¬ Since on off [] := by
  intro ⟨before, a, after, hnil, _⟩
  exact List.append_ne_nil_of_right_ne_nil before (List.cons_ne_nil a after) hnil.symm

theorem since_cons {a : α} :
    Since on off (a :: inputs) ↔ (on a ∧ ∀ b ∈ inputs, ¬ off b) ∨ Since on off inputs := by
  constructor
  · intro ⟨before, b, after, heq, hon, hafter⟩
    cases before with
    | nil =>
      obtain ⟨rfl, rfl⟩ := List.cons_eq_cons.mp heq
      exact .inl ⟨hon, hafter⟩
    | cons c before => exact .inr ⟨before, b, after, (List.cons_eq_cons.mp heq).2, hon, hafter⟩
  · intro h
    rcases h with ⟨hon, hafter⟩ | ⟨before, b, after, rfl, hon, hafter⟩
    · exact ⟨[], a, inputs, rfl, hon, hafter⟩
    · exact ⟨a :: before, b, after, rfl, hon, hafter⟩

instance decidableSince (on off : α → Prop) [DecidablePred on] [DecidablePred off] :
    (inputs : List α) → Decidable (Since on off inputs)
  | [] => isFalse not_since_nil
  | a :: inputs =>
      have := decidableSince on off inputs
      decidable_of_iff ((on a ∧ ∀ b ∈ inputs, ¬ off b) ∨ Since on off inputs) since_cons.symm

theorem since_concat {a : α} : Since on off (inputs ++ [a]) ↔ on a ∨ Since on off inputs ∧ ¬ off a := by
  constructor
  · intro ⟨before, b, after, heq, hon, hafter⟩
    rcases List.eq_nil_or_concat after with rfl | ⟨after, c, rfl⟩
    · obtain ⟨_, hlast⟩ := List.append_inj' heq rfl
      obtain ⟨rfl, _⟩ := List.cons_eq_cons.mp hlast
      exact .inl hon
    · rw [List.concat_eq_append] at heq hafter
      rw [← List.cons_append, ← List.append_assoc] at heq
      obtain ⟨hinputs, hlast⟩ := List.append_inj' heq rfl
      obtain ⟨rfl, _⟩ := List.cons_eq_cons.mp hlast
      refine .inr ⟨⟨before, b, after, hinputs, hon, fun d hd => ?_⟩, ?_⟩
      · exact hafter d (List.mem_append_left _ hd)
      · exact hafter a (List.mem_append_right _ List.mem_cons_self)
  · intro h
    rcases h with hon | ⟨⟨before, b, after, rfl, hon, hafter⟩, hoff⟩
    · exact ⟨inputs, a, [], rfl, hon, fun _ hnil => absurd hnil List.not_mem_nil⟩
    · refine ⟨before, b, after ++ [a], by rw [List.append_assoc, List.cons_append], hon, fun c hc => ?_⟩
      rcases List.mem_append.mp hc with hc | hc
      · exact hafter c hc
      · rwa [List.mem_singleton.mp hc]

/-- A part of the state that the one kind turns on and the other off tells what has come since. -/
theorem Along.since_iff {run : σ → α → σ} {ok : σ → α → Prop} {P : σ → Prop} {s : σ} (hs : ¬ P s)
    (hstep : ∀ s a, ok s a → (P (run s a) ↔ on a ∨ P s ∧ ¬ off a)) (h : Along run ok s inputs) :
    P (inputs.foldl run s) ↔ Since on off inputs := by
  induction inputs using List.reverseRecOn with
  | nil => exact iff_of_false hs not_since_nil
  | append_singleton inputs a ih =>
    obtain ⟨hinputs, hok, _⟩ := along_append.mp h
    rw [List.foldl_append, List.foldl_cons, List.foldl_nil, hstep _ a hok, ih hinputs, since_concat]

end Knpnl.Lib
