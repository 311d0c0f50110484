import Mathlib.Data.Nat.Digits.Lemmas

/-!
# Numerals

The numeral of a number in a base is the list of its digits, the most significant first, without
leading zeros; that of zero is one zero. A program finds the digits from the other end, one with
each division by the base.
-/
namespace Knpnl.Lib

variable {b n : ℕ}

def numeral (b n : ℕ) : List ℕ := if n = 0 then [0] else (Nat.digits b n).reverse

/-- What makes a list of digits the numeral of `n`. -/
structure IsNumeral (b n : ℕ) (ds : List ℕ) : Prop where
  lt : ∀ d ∈ ds, d < b
  value : Nat.ofDigits b ds.reverse = n
  ne_nil : ds ≠ []
  leading : ds.head? = some 0 → ds = [0]

theorem numeral_of_lt (h : n < b) : numeral b n = [n] := by
  unfold numeral
  split
  · rename_i hzero
    rw [hzero]
  · rename_i hne
    rw [Nat.digits_of_lt b n hne h, List.reverse_singleton]

/-- The digits of the quotient, and the remainder. -/
theorem numeral_of_le (hb : 1 < b) (h : b ≤ n) : numeral b n = numeral b (n / b) ++ [n % b] := by
  have hn : n ≠ 0 := by omega
  have hquot : n / b ≠ 0 := (Nat.div_pos h (by omega)).ne'
  rw [numeral, if_neg hn, Nat.digits_eq_cons_digits_div hb hn, List.reverse_cons, numeral, if_neg hquot]

theorem isNumeral_numeral (hb : 1 < b) (n : ℕ) : IsNumeral b n (numeral b n) := by
  unfold numeral
  split
  · rename_i hzero
    subst hzero
    exact ⟨fun d hd => by rw [List.mem_singleton.mp hd]; omega, by simp, List.cons_ne_nil _ _, fun _ => rfl⟩
  · rename_i hne
    refine ⟨fun d hd => Nat.digits_lt_base hb (List.mem_reverse.mp hd), ?_, ?_, fun hzero => ?_⟩
    · rw [List.reverse_reverse, Nat.ofDigits_digits]
    · rw [ne_eq, List.reverse_eq_nil_iff]
      exact Nat.digits_ne_nil_iff_ne_zero.mpr hne
    · rw [List.head?_reverse,
        List.getLast?_eq_getLast_of_ne_nil (Nat.digits_ne_nil_iff_ne_zero.mpr hne)] at hzero
      exact absurd (Option.some.inj hzero) (Nat.getLast_digit_ne_zero b hne)

theorem length_numeral_le (hb : 1 < b) {k : ℕ} (hk : 0 < k) (h : n < b ^ k) : (numeral b n).length ≤ k := by
  unfold numeral
  split
  · exact hk
  · rw [List.length_reverse]
    exact (Nat.digits_length_le_iff hb n).mpr h

section
variable {α β : Type*}

/-- `do { *p++ = table[i % b]; i /= b; } while (i != 0)`, at most so many times round. A digit that
is not in the table ends it. -/
def digitLoop (lsd : α → Option β) (quot : α → α) (isZero : α → Bool) : ℕ → α → List β → Option (List β)
  | 0, _, _ => none
  | fuel + 1, i, stored =>
      match lsd i with
      | none => none
      | some c =>
          if isZero (quot i) then some (stored ++ [c])
          else digitLoop lsd quot isZero fuel (quot i) (stored ++ [c])

/-- The loop stores the numeral of what `i` stands for, the last digit first. -/
theorem digitLoop_eq {lsd : α → Option β} {quot : α → α} {isZero : α → Bool} {value : α → ℕ} {char : ℕ → β}
    (hb : 1 < b) (hlsd : ∀ i, lsd i = some (char (value i % b))) (hquot : ∀ i, value (quot i) = value i / b)
    (hzero : ∀ i, isZero i = true ↔ value i = 0) {fuel : ℕ} (i : α) (stored : List β)
    (hfuel : value i < b ^ fuel) (hpos : 0 < fuel) :
    digitLoop lsd quot isZero fuel i stored = some (stored ++ ((numeral b (value i)).map char).reverse) := by
  induction fuel generalizing i stored with
  | zero => omega
  | succ fuel ih =>
    rw [digitLoop, hlsd]
    dsimp only
    have hiff : isZero (quot i) = true ↔ value i < b := by
      rw [hzero, hquot, Nat.div_eq_zero_iff]
      omega
    rcases lt_or_ge (value i) b with hlt | hle
    · rw [if_pos (hiff.mpr hlt), numeral_of_lt hlt, Nat.mod_eq_of_lt hlt]
      rfl
    · have hsmall : value (quot i) < b ^ fuel := by
        rw [hquot]
        exact Nat.div_lt_of_lt_mul (by rwa [pow_succ'] at hfuel)
      have hround : 0 < fuel := by
        by_contra hnot
        rw [Nat.eq_zero_of_not_pos hnot, zero_add, pow_one] at hfuel
        omega
      rw [if_neg (by rw [hiff]; omega), ih _ _ hsmall hround, numeral_of_le hb hle, hquot]
      simp

end
end Knpnl.Lib
