import Mathlib.Data.Nat.ModEq
import Knpnl.Lib.Balance
import Knpnl.Lib.Reach

/-!
# `event/LoopThreadPool`: handing out loops

`getNextLoop` keeps the place of the next loop in a static variable of the function, which all the
pools of a process share, and takes it as 0 where it is past the end of the pool that is called.
-/
namespace Knpnl.Event

open Lib

/-- The loops are those of the threads in `mLoopList`, of which there are `mThreadNums`. -/
structure LoopThreadPool where
  mThreadNums : Nat
  pos : 0 < mThreadNums

namespace LoopThreadPool

/-- A loop, by its place in `mLoopList`. -/
abbrev Loop (pool : LoopThreadPool) : Type := Fin pool.mThreadNums

/-- `mLoopList[index]`, if it is in range, and the static variable after the call. -/
def getNextLoop (pool : LoopThreadPool) (index : Nat) : Option pool.Loop × Nat :=
  let index := if index ≥ pool.mThreadNums then 0 else index
  (if h : index < pool.mThreadNums then some ⟨index, h⟩ else none, index + 1)

/-- The loop that a value of the static variable stands for. -/
def loopAt (pool : LoopThreadPool) (index : Nat) : pool.Loop :=
  if h : index < pool.mThreadNums then ⟨index, h⟩ else ⟨0, pool.pos⟩

theorem getNextLoop_eq (pool : LoopThreadPool) (index : Nat) :
    pool.getNextLoop index = (some (pool.loopAt index), (pool.loopAt index).val + 1) := by
  unfold getNextLoop loopAt
  by_cases h : index < pool.mThreadNums
  · rw [if_neg (by omega), dif_pos h]
    dsimp only
    rw [dif_pos h]
  · rw [if_pos (by omega), dif_neg h]
    dsimp only
    rw [dif_pos pool.pos]

end LoopThreadPool

variable {ι : Type*} [DecidableEq ι]

/-- The static variable, and how often each loop has been returned by its pool. -/
structure PoolState (pools : ι → LoopThreadPool) where
  index : Nat
  returned : ∀ i, (pools i).Loop → Nat

namespace PoolState

variable {pools : ι → LoopThreadPool}

def start : PoolState pools := ⟨0, fun _ _ => 0⟩

/-- A call of `getNextLoop` on the pool `i`. -/
def step (s : PoolState pools) (i : ι) : PoolState pools :=
  let r := (pools i).getNextLoop s.index
  { index := r.2
    returned := Function.update s.returned i <|
      match r.1 with
      | some loop => giveTurn (s.returned i) loop
      | none => s.returned i }

/-- The call stays within the list, and after it every pool has returned its loops evenly. -/
def HandsOut (s : PoolState pools) (i : ι) : Prop :=
  ((pools i).getNextLoop s.index).1.isSome ∧ ∀ j, Balanced ((s.step i).returned j)

/-- The static variable stands for a loop that the pool has not returned yet in this round, where
every `mThreadNums` calls of the pool are a round. -/
def NewInRound (s : PoolState pools) (i : ι) : Prop :=
  s.returned i ((pools i).loopAt s.index) ≤ (∑ loop, s.returned i loop) / (pools i).mThreadNums

instance (s : PoolState pools) (i : ι) : Decidable (s.NewInRound i) := inferInstanceAs (Decidable (_ ≤ _))

theorem returned_step_self (s : PoolState pools) (i : ι) :
    (s.step i).returned i = giveTurn (s.returned i) ((pools i).loopAt s.index) := by
  rw [step, LoopThreadPool.getNextLoop_eq]
  exact Function.update_self ..

theorem returned_step_of_ne (s : PoolState pools) {i j : ι} (h : j ≠ i) :
    (s.step i).returned j = s.returned j := Function.update_of_ne h ..

theorem handsOut_iff {s : PoolState pools} (h : ∀ j, Balanced (s.returned j)) (i : ι) :
    s.HandsOut i ↔ s.NewInRound i := by
  have hnext : Balanced ((s.step i).returned i) ↔ s.NewInRound i := by
    rw [returned_step_self, (h i).giveTurn_iff, (h i).least_iff, Fintype.card_fin, NewInRound]
  rw [← hnext]
  constructor
  · intro ⟨_, hall⟩
    exact hall i
  · intro hi
    refine ⟨by rw [LoopThreadPool.getNextLoop_eq]; rfl, fun j => ?_⟩
    by_cases hj : j = i
    · rwa [hj]
    · rw [returned_step_of_ne s hj]
      exact h j

omit [DecidableEq ι] in
theorem balanced_start (j : ι) : Balanced ((start : PoolState pools).returned j) := fun _ _ => Nat.zero_le _

theorem handsOut_iff_newInRound (calls : List ι) :
    Along step HandsOut (start : PoolState pools) calls ↔ Along step NewInRound (start : PoolState pools) calls :=
  along_iff_along (I := fun s => ∀ j, Balanced (s.returned j)) (fun _ i h (_ : True) => handsOut_iff h i)
    (fun _ _ _ _ hout => hout.2) balanced_start (along_of_forall (fun _ _ _ => trivial) _)

/-- The state after some calls. -/
def after (pools : ι → LoopThreadPool) (before : List ι) : PoolState pools := before.foldl step start

theorem after_concat (before : List ι) (i : ι) : after pools (before ++ [i]) = (after pools before).step i := by
  rw [after, List.foldl_append]
  rfl

theorem after_append (before calls : List ι) :
    after pools (before ++ calls) = calls.foldl step (after pools before) := List.foldl_append

/-- A pool has returned as many loops as it has been called. -/
theorem sum_returned (before : List ι) (i : ι) :
    ∑ loop, (after pools before).returned i loop = before.count i := by
  induction before using List.reverseRecOn with
  | nil => exact Finset.sum_const_zero
  | append_singleton before j ih =>
    rw [after_concat, List.count_append]
    by_cases hj : i = j
    · subst hj
      rw [returned_step_self, sum_giveTurn, ih, List.count_singleton_self]
    · have hother : j ≠ i := fun h => hj h.symm
      rw [returned_step_of_ne _ hj, ih, List.count_singleton, if_neg (by simpa using hother), Nat.add_zero]

theorem returned_le_step (s : PoolState pools) (i j : ι) (loop : (pools i).Loop) :
    s.returned i loop ≤ (s.step j).returned i loop := by
  by_cases hj : i = j
  · subst hj
    rw [returned_step_self]
    by_cases hloop : loop = (pools i).loopAt s.index
    · rw [hloop, giveTurn_self]
      exact Nat.le_succ _
    · rw [giveTurn_of_ne hloop]
  · rw [returned_step_of_ne s hj]

theorem returned_le_run (s : PoolState pools) (calls : List ι) (i : ι) (loop : (pools i).Loop) :
    s.returned i loop ≤ (calls.foldl step s).returned i loop := by
  induction calls generalizing s with
  | nil => exact le_refl _
  | cons j calls ih => exact (returned_le_step s i j loop).trans (ih (s.step j))

/-- A loop that a pool has returned was returned by a last call of the pool. -/
theorem exists_last_call {before : List ι} {i : ι} {loop : (pools i).Loop}
    (h : 0 < (after pools before).returned i loop) :
    ∃ k < before.length, before[k]? = some i ∧
      (pools i).loopAt (after pools (before.take k)).index = loop ∧
        (after pools (before.take k)).returned i loop + 1 = (after pools before).returned i loop := by
  induction before using List.reverseRecOn with
  | nil => exact absurd h (lt_irrefl 0)
  | append_singleton before j ih =>
    rw [after_concat] at h ⊢
    by_cases hnow : i = j ∧ (pools i).loopAt (after pools before).index = loop
    · obtain ⟨rfl, hloop⟩ := hnow
      refine ⟨before.length, by simp, by simp, ?_⟩
      rw [List.take_left', returned_step_self, hloop, giveTurn_self]
      · exact ⟨rfl, rfl⟩
      · rfl
    · have hsame : ((after pools before).step j).returned i loop = (after pools before).returned i loop := by
        by_cases hj : i = j
        · subst hj
          rw [returned_step_self, giveTurn_of_ne fun hloop => hnow ⟨rfl, hloop.symm⟩]
        · rw [returned_step_of_ne _ hj]
      rw [hsame] at h ⊢
      obtain ⟨k, hk, hcall, hloop, hlast⟩ := ih h
      have htake : (before ++ [j]).take k = before.take k := List.take_append_of_le_length hk.le
      refine ⟨k, by simp; omega, ?_, by rwa [htake], by rwa [htake]⟩
      rwa [List.getElem?_append_left hk]

/-- Calls of pools of one size move the place by one. -/
theorem place_step (s : PoolState pools) {i j : ι} (h : (pools j).mThreadNums = (pools i).mThreadNums) :
    ((pools i).loopAt (s.step j).index).val = (((pools i).loopAt s.index).val + 1) % (pools i).mThreadNums := by
  have hindex : (s.step j).index = ((pools i).loopAt s.index).val + 1 := by
    rw [step, LoopThreadPool.getNextLoop_eq]
    simp only [LoopThreadPool.loopAt, h]
    split <;> rfl
  have hlt := ((pools i).loopAt s.index).isLt
  rw [hindex]
  generalize ((pools i).loopAt s.index).val = place at hlt
  rw [LoopThreadPool.loopAt]
  by_cases hlast : place + 1 < (pools i).mThreadNums
  · rw [dif_pos hlast, Nat.mod_eq_of_lt hlast]
  · have heq : place + 1 = (pools i).mThreadNums := by omega
    rw [dif_neg hlast, heq, Nat.mod_self]

theorem place_run (s : PoolState pools) {i : ι} {calls : List ι}
    (h : ∀ j ∈ calls, (pools j).mThreadNums = (pools i).mThreadNums) :
    ((pools i).loopAt (calls.foldl step s).index).val =
      (((pools i).loopAt s.index).val + calls.length) % (pools i).mThreadNums := by
  induction calls generalizing s with
  | nil => exact (Nat.mod_eq_of_lt ((pools i).loopAt s.index).isLt).symm
  | cons j calls ih =>
    rw [List.foldl_cons, ih (s.step j) fun k hk => h k (List.mem_cons_of_mem j hk),
      place_step s (h j List.mem_cons_self), Nat.mod_add_mod, List.length_cons, Nat.add_assoc, Nat.add_comm 1]

/-- They come back to the place after whole rounds. -/
theorem loopAt_run_iff (s : PoolState pools) {i : ι} {calls : List ι}
    (h : ∀ j ∈ calls, (pools j).mThreadNums = (pools i).mThreadNums) :
    (pools i).loopAt (calls.foldl step s).index = (pools i).loopAt s.index ↔
      (pools i).mThreadNums ∣ calls.length := by
  rw [Fin.ext_iff, place_run s h, ← Nat.add_modEq_left_iff (a := ((pools i).loopAt s.index).val), Nat.ModEq,
    Nat.mod_eq_of_lt ((pools i).loopAt s.index).isLt]

/-- The rounds of a pool that are over. -/
def rounds (pools : ι → LoopThreadPool) (before : List ι) (i : ι) : Nat :=
  before.count i / (pools i).mThreadNums

/-- Since each call of the pool in its present round only pools of its size have been called, and not
a whole number of rounds. -/
def KeepsPlace (pools : ι → LoopThreadPool) (before : List ι) (i : ι) : Prop :=
  ∀ k < before.length, before[k]? = some i → rounds pools (before.take k) i = rounds pools before i →
    (∀ j ∈ before.drop k, (pools j).mThreadNums = (pools i).mThreadNums) ∧
      ¬ (pools i).mThreadNums ∣ (before.drop k).length

instance (pools : ι → LoopThreadPool) (before : List ι) (i : ι) : Decidable (KeepsPlace pools before i) :=
  inferInstanceAs (Decidable (∀ k < _, _ → _ → _ ∧ _))

/-- The calls so far, and one more. -/
def called (before : List ι) (i : ι) : List ι := before ++ [i]

omit [DecidableEq ι] in
theorem foldl_called (before calls : List ι) : calls.foldl called before = before ++ calls := by
  induction calls generalizing before with
  | nil => exact (List.append_nil before).symm
  | cons i calls ih => rw [List.foldl_cons, ih, called, List.append_assoc, List.singleton_append]

theorem newInRound_iff (before : List ι) (i : ι) :
    (after pools before).NewInRound i ↔
      (after pools before).returned i ((pools i).loopAt (after pools before).index) ≤ rounds pools before i := by
  rw [NewInRound, sum_returned, rounds]

/-- The loop was returned in the pool's present round. -/
theorem exists_call_of_not_new {before : List ι} {i : ι}
    (hnew : ∀ k < before.length, before[k]? = some i → (after pools (before.take k)).NewInRound i)
    (h : ¬ (after pools before).NewInRound i) :
    ∃ k < before.length, before[k]? = some i ∧ rounds pools (before.take k) i = rounds pools before i ∧
      (pools i).loopAt (after pools before).index = (pools i).loopAt (after pools (before.take k)).index := by
  rw [newInRound_iff, not_le] at h
  obtain ⟨k, hk, hcall, hloop, hlast⟩ := exists_last_call (Nat.zero_lt_of_lt h)
  refine ⟨k, hk, hcall, Nat.le_antisymm ?_ ?_, hloop.symm⟩
  · exact Nat.div_le_div_right ((List.take_sublist k before).count_le i)
  · have hold := (newInRound_iff (before.take k) i).mp (hnew k hk hcall)
    rw [hloop] at hold
    omega

/-- Where every pool keeps its place, no call returns a loop for the second time in a round. -/
theorem newInRound_of_keepsPlace {calls : List ι} (h : Along called (KeepsPlace pools) [] calls) :
    Along step NewInRound (start : PoolState pools) calls := by
  rw [along_iff_getElem] at h ⊢
  intro t
  induction t using Nat.strong_induction_on with
  | _ t ih =>
    intro i hi
    by_contra hnot
    have hlt := (List.getElem?_eq_some_iff.mp hi).1
    have htake : ∀ k < t, (calls.take t).take k = calls.take k := fun k hk => by
      rw [List.take_take, Nat.min_eq_left hk.le]
    obtain ⟨k, hk, hcall, hround, hloop⟩ := exists_call_of_not_new
      (fun k hk hcall => by
        have hkt : k < t := (List.length_take_le t calls).trans_lt' hk
        rw [htake k hkt]
        rw [List.getElem?_take_of_lt hkt] at hcall
        exact ih k hkt i hcall) hnot
    have hkeeps := h t i hi
    rw [foldl_called, List.nil_append] at hkeeps
    obtain ⟨hsize, hdvd⟩ := hkeeps k hk hcall hround
    rw [← List.take_append_drop k (calls.take t), after_append, List.take_append_drop] at hloop
    exact hdvd ((loopAt_run_iff _ hsize).mp hloop)

theorem balanced_after {calls : List ι} (h : Along step HandsOut (start : PoolState pools) calls) (k : Nat)
    (i : ι) : Balanced ((after pools (calls.take k)).returned i) := by
  rw [← List.take_append_drop k calls, along_append] at h
  exact h.1.invariant (P := fun s => ∀ j, Balanced (s.returned j)) (fun _ _ _ hout => hout.2) balanced_start i

/-- A loop that is returned has been returned once more than there are rounds. -/
theorem rounds_lt_returned {before : List ι} {i : ι} (h : Balanced ((after pools before).returned i))
    (rest : List ι) :
    rounds pools before i <
      (after pools (before ++ i :: rest)).returned i ((pools i).loopAt (after pools before).index) := by
  have hrounds := h.rounds_le ((pools i).loopAt (after pools before).index)
  rw [sum_returned, Fintype.card_fin] at hrounds
  calc rounds pools before i
      < ((after pools before).step i).returned i ((pools i).loopAt (after pools before).index) := by
        rw [returned_step_self, giveTurn_self]
        exact Nat.lt_succ_of_le hrounds
    _ ≤ (after pools (before ++ i :: rest)).returned i ((pools i).loopAt (after pools before).index) := by
        rw [after_append]
        exact returned_le_run _ rest i _

/-- Pools of one size return their loops evenly only where each of them keeps its place. -/
theorem keepsPlace_of_handsOut {calls : List ι}
    (hsize : ∀ i ∈ calls, ∀ j ∈ calls, (pools j).mThreadNums = (pools i).mThreadNums)
    (h : Along step HandsOut (start : PoolState pools) calls) : Along called (KeepsPlace pools) [] calls := by
  have hnew := (handsOut_iff_newInRound calls).mp h
  rw [along_iff_getElem] at hnew ⊢
  intro t i hi k hk hcall hround
  rw [foldl_called, List.nil_append] at hk hcall hround ⊢
  have hsame : ∀ j ∈ (calls.take t).drop k, (pools j).mThreadNums = (pools i).mThreadNums := fun j hj =>
    hsize i (List.mem_of_getElem? hi) j (List.mem_of_mem_take (List.mem_of_mem_drop hj))
  refine ⟨hsame, fun hdvd => ?_⟩
  have hkt : k < t := hk.trans_le (List.length_take_le t calls)
  have htake : (calls.take t).take k = calls.take k := by rw [List.take_take, Nat.min_eq_left hkt.le]
  have hloop := (loopAt_run_iff (after pools ((calls.take t).take k)) hsame).mpr hdvd
  rw [← after_append, List.take_append_drop] at hloop
  have hnow := (newInRound_iff (calls.take t) i).mp (hnew t i hi)
  have htwice := rounds_lt_returned (htake ▸ balanced_after h k i) ((calls.take t).drop (k + 1))
  obtain ⟨hlt, hget⟩ := List.getElem?_eq_some_iff.mp hcall
  rw [← hget, ← List.drop_eq_getElem_cons hlt, List.take_append_drop, hget, ← hloop, hround] at htwice
  exact absurd hnow (not_le.mpr htwice)

theorem handsOut_of_keepsPlace {calls : List ι} (h : Along called (KeepsPlace pools) [] calls) :
    Along step HandsOut (start : PoolState pools) calls :=
  (handsOut_iff_newInRound calls).mpr (newInRound_of_keepsPlace h)

theorem keepsPlace_alone {calls : List ι} (halone : ∀ i ∈ calls, ∀ j ∈ calls, j = i) :
    Along called (KeepsPlace pools) [] calls := by
  refine along_iff_getElem.mpr fun t i hi k hk _ hround => ?_
  obtain ⟨n, rfl⟩ : ∃ n, calls = List.replicate n i :=
    ⟨_, List.eq_replicate_of_mem fun j hj => halone i (List.mem_of_getElem? hi) j hj⟩
  rw [foldl_called, List.nil_append, List.take_replicate] at hk hround ⊢
  rw [List.drop_replicate, List.length_replicate]
  rw [List.length_replicate] at hk
  refine ⟨fun j hj => by rw [List.eq_of_mem_replicate hj], fun hdvd => ?_⟩
  -- within a round there are fewer calls than loops
  rw [rounds, rounds, List.take_replicate, List.count_replicate_self, List.count_replicate_self,
    Nat.min_eq_left hk.le] at hround
  have hle := Nat.le_of_dvd (by omega) hdvd
  have hmod := Nat.div_add_mod k (pools i).mThreadNums
  have hmod' := Nat.div_add_mod (min t n) (pools i).mThreadNums
  have hlt := Nat.mod_lt (min t n) (pools i).pos
  rw [hround] at hmod
  omega

/-- In every sequence of calls the list index is in range and every pool returns its loops evenly, if each
pool keeps its place in its rounds; and only if it does, where the pools that are called have one size. A
pool that is called alone keeps its place. -/
theorem handsOut_run (pools : ι → LoopThreadPool) (calls : List ι) :
    (Along called (KeepsPlace pools) [] calls → Along step HandsOut (start : PoolState pools) calls) ∧
      ((∀ i ∈ calls, ∀ j ∈ calls, (pools j).mThreadNums = (pools i).mThreadNums) →
        Along step HandsOut (start : PoolState pools) calls → Along called (KeepsPlace pools) [] calls) ∧
      ((∀ i ∈ calls, ∀ j ∈ calls, j = i) → Along called (KeepsPlace pools) [] calls) :=
  ⟨handsOut_of_keepsPlace, keepsPlace_of_handsOut, keepsPlace_alone⟩

/-- Two pools of three loops that are called in turn, and then one of two loops. -/
theorem handsOut_run_turns :
    Along step HandsOut (start : PoolState fun i : Fin 3 => ⟨if i = 2 then 2 else 3, by split <;> decide⟩)
      [0, 1, 0, 1, 0, 1, 2, 2, 0, 0, 0] :=
  (handsOut_run _ _).1 (by decide)

/-- Whatever the pools are, and in whatever order they are called. -/
def AlwaysHandsOut (ι : Type*) [DecidableEq ι] : Prop :=
  ∀ (pools : ι → LoopThreadPool) (calls : List ι), Along step HandsOut (start : PoolState pools) calls

/-- Two pools of two loops that are called in turn: one always returns its first loop, and the
other its second. -/
theorem alwaysHandsOut_alternate : ¬ AlwaysHandsOut Bool := by
  intro hclaim
  obtain ⟨_, _, ⟨_, hbalanced⟩, _⟩ := hclaim (fun _ => ⟨2, by decide⟩) [true, false, true]
  have hle := hbalanced true 0 1
  revert hle
  decide

end PoolState
end Knpnl.Event
