import Mathlib.Data.List.Basic
import Mathlib.Data.List.Induction

/-!
# Feeding a stream in chunks

A consumer takes a stream chunk by chunk. `Feeds` says that every chunk is admitted
by the state it meets. A fact about a state and everything fed so far that one
admitted chunk preserves holds after every segmentation of a stream.
-/
namespace Knpnl.Lib.Feed

variable {σ α : Type*}

def feed (step : σ → List α → σ) (s : σ) (chunks : List (List α)) : σ := chunks.foldl step s

/-- Each chunk in turn is admitted by the state reached when it arrives. -/
def Feeds (step : σ → List α → σ) (admits : σ → List α → Prop) : σ → List (List α) → Prop
  | _, [] => True
  | s, c :: cs => admits s c ∧ Feeds step admits (step s c) cs

instance decidableFeeds (step : σ → List α → σ) (admits : σ → List α → Prop)
    [∀ s c, Decidable (admits s c)] : (s : σ) → (cs : List (List α)) → Decidable (Feeds step admits s cs)
  | _, [] => isTrue trivial
  | s, c :: cs =>
      have := decidableFeeds step admits (step s c) cs
      inferInstanceAs (Decidable (admits s c ∧ Feeds step admits (step s c) cs))

variable {step : σ → List α → σ} {admits : σ → List α → Prop}

@[simp] theorem feed_nil (s : σ) : feed step s [] = s := rfl

@[simp] theorem feed_cons (s : σ) (c : List α) (cs : List (List α)) :
    feed step s (c :: cs) = feed step (step s c) cs := rfl

theorem feed_append (s : σ) (cs ds : List (List α)) :
    feed step s (cs ++ ds) = feed step (feed step s cs) ds := List.foldl_append

/-- The induction rule: `seen` is what has been fed before the chunks. -/
theorem Feeds.invariant {I : σ → List α → Prop}
    (hstep : ∀ s seen c, I s seen → admits s c → I (step s c) (seen ++ c))
    {s : σ} {seen : List α} {cs : List (List α)} (hs : I s seen)
    (h : Feeds step admits s cs) : I (feed step s cs) (seen ++ cs.flatten) := by
  induction cs generalizing s seen with
  | nil => simpa using hs
  | cons c cs ih =>
    have hc := hstep s seen c hs h.1
    simpa only [feed_cons, List.flatten_cons, List.append_assoc] using ih hc h.2

theorem feed_concat (s : σ) (cs : List (List α)) (c : List α) :
    feed step s (cs ++ [c]) = step (feed step s cs) c := by
  rw [feed_append]
  rfl

theorem feeds_concat {s : σ} {cs : List (List α)} {c : List α} :
    Feeds step admits s (cs ++ [c]) ↔ Feeds step admits s cs ∧ admits (feed step s cs) c := by
  induction cs generalizing s with
  | nil => simp [Feeds]
  | cons d cs ih => simp [Feeds, ih, and_assoc]

theorem Feeds.of_prefix {s : σ} {cs ds : List (List α)} (h : Feeds step admits s cs) (hds : ds <+: cs) :
    Feeds step admits s ds := by
  induction ds generalizing s cs with
  | nil => trivial
  | cons d ds ih =>
    obtain ⟨es, rfl⟩ := hds
    exact ⟨h.1, ih h.2 (List.prefix_append ds es)⟩

/-- Some chunk brings the last element of a stream that is not empty. -/
theorem exists_last_chunk {cs : List (List α)} (h : cs.flatten ≠ []) :
    ∃ pre c post, cs = pre ++ c :: post ∧ pre.flatten.length < cs.flatten.length ∧
      (pre ++ [c]).flatten = cs.flatten := by
  induction cs using List.reverseRecOn with
  | nil => simp at h
  | append_singleton cs c ih =>
    by_cases hc : c = []
    · subst hc
      obtain ⟨pre, d, post, rfl, hlt, heq⟩ := ih (by simpa using h)
      refine ⟨pre, d, post ++ [[]], by simp, ?_, ?_⟩
      · simpa using hlt
      · simpa using heq
    · have hpos := List.length_pos_iff.mpr hc
      exact ⟨cs, c, [], rfl, by simp; omega, rfl⟩

end Knpnl.Lib.Feed
