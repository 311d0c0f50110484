import Mathlib.Algebra.Ring.Int.Defs
import Mathlib.Algebra.Ring.Nat
import Mathlib.Data.List.Basic
import Mathlib.Data.List.TakeWhile

/-!
# NUL-terminated strings over a list of bytes

A `char *` is the list of bytes from the pointer to the end of its allocation, so
the string it denotes is the prefix before the first NUL. The functions below are
the C library's on the denoted string. Case folding is that of the C locale, and
`atol` saturates at the limits of a 64-bit `long`.
-/
namespace Knpnl.Lib.CString

abbrev Bytes := List UInt8

/-- Along the string, and not over all the bytes there are. -/
instance (priority := high) decidableForallBytes (P : UInt8 → Prop) [DecidablePred P] (s : Bytes) :
    Decidable (∀ c ∈ s, P c) := List.decidableBAll P s

/-- The bytes of an ASCII literal, without its terminator. -/
def ascii (s : String) : Bytes := s.toList.map fun c => UInt8.ofNat c.toNat

/-- The string that a pointer to `text` denotes. -/
def cstr (text : Bytes) : Bytes := text.takeWhile (· ≠ 0)

def tolower (c : UInt8) : UInt8 := if 65 ≤ c ∧ c ≤ 90 then c + 32 else c

/-- Negative, zero or positive, by the first pair of bytes that differ when folded. -/
def strcasecmp : Bytes → Bytes → Int
  | [], [] => 0
  | [], d :: _ => -(tolower d).toNat
  | c :: _, [] => (tolower c).toNat
  | c :: cs, d :: ds =>
      if tolower c = tolower d then strcasecmp cs ds
      else (tolower c).toNat - (tolower d).toNat

def strncasecmp (a b : Bytes) (n : Nat) : Int := strcasecmp (a.take n) (b.take n)

/-- Length of the longest prefix made of bytes of `accept`. -/
def strspn (s accept : Bytes) : Nat := (s.takeWhile (· ∈ accept)).length

/-- Offset of the first byte of `s` that is in `accept`. -/
def strpbrk (s accept : Bytes) : Option Nat := s.findIdx? (· ∈ accept)

def strchr (s : Bytes) (c : UInt8) : Option Nat := s.findIdx? (· = c)

def isspace (c : UInt8) : Bool := c = 32 ∨ (9 ≤ c ∧ c ≤ 13)

def isdigit (c : UInt8) : Bool := 48 ≤ c ∧ c ≤ 57

/-- The value of a run of decimal digits, most significant first. -/
def digitsValue (s : Bytes) : Nat := s.foldl (fun n d => 10 * n + (d.toNat - 48)) 0

def atol (s : Bytes) : Int :=
  match s.dropWhile isspace with
  | 45 :: r => max (-(digitsValue (r.takeWhile isdigit) : Int)) (-2 ^ 63)
  | 43 :: r => min (digitsValue (r.takeWhile isdigit) : Int) (2 ^ 63 - 1)
  | r => min (digitsValue (r.takeWhile isdigit) : Int) (2 ^ 63 - 1)

/-- `s` cut at its first byte of `accept`, which is left out. -/
def cut (accept : Bytes) : Bytes → Option (Bytes × Bytes)
  | [] => none
  | c :: cs => if c ∈ accept then some ([], cs) else (cut accept cs).map fun p => (c :: p.1, p.2)

theorem cstr_append_nul {s : Bytes} (hs : 0 ∉ s) (t : Bytes) : cstr (s ++ 0 :: t) = s := by
  induction s with
  | nil => simp [cstr]
  | cons c s ih =>
    have hc : c ≠ 0 := fun h => hs (by simp [h])
    have ht := ih fun h => hs (List.mem_cons_of_mem c h)
    simpa [cstr, hc] using ht

theorem cstr_of_nulFree {s : Bytes} (hs : 0 ∉ s) : cstr s = s := by
  apply List.takeWhile_eq_self_iff.mpr
  intro c hc
  have : c ≠ 0 := fun h => hs (h ▸ hc)
  simpa using this

theorem nulFree_cstr (text : Bytes) : 0 ∉ cstr text := by
  intro h
  have := List.mem_takeWhile_imp h
  simp at this

/-- A text in which some byte is NUL is its string, the NUL, and what follows. -/
theorem exists_eq_cstr_append {text : Bytes} (h : 0 ∈ text) :
    ∃ t, text = cstr text ++ 0 :: t := by
  induction text with
  | nil => simp at h
  | cons c s ih =>
    by_cases hc : c = 0
    · exact ⟨s, by simp [cstr, hc]⟩
    · obtain ⟨t, ht⟩ := ih (by simpa [Ne.symm hc] using h)
      refine ⟨t, ?_⟩
      have hcons : cstr (c :: s) = c :: cstr s := by simp [cstr, hc]
      rw [hcons, List.cons_append, ← ht]

theorem cut_eq_some {accept s m r : Bytes} (h : cut accept s = some (m, r)) :
    (∀ c ∈ m, c ∉ accept) ∧ ∃ c ∈ accept, s = m ++ c :: r := by
  induction s generalizing m with
  | nil => simp [cut] at h
  | cons d s ih =>
    simp only [cut] at h
    split at h
    · rename_i hd
      obtain ⟨rfl, rfl⟩ := by simpa using h
      exact ⟨by simp, d, hd, rfl⟩
    · rename_i hd
      obtain ⟨p, hp, hpe⟩ := Option.map_eq_some_iff.mp h
      obtain ⟨rfl, rfl⟩ := by simpa using hpe
      obtain ⟨hm, c, hc, rfl⟩ := ih hp
      exact ⟨by simpa [hd] using hm, c, hc, by simp⟩

theorem strchr_append {s : Bytes} {c : UInt8} (hs : c ∉ s) (r : Bytes) :
    strchr (s ++ c :: r) c = some s.length := by
  induction s with
  | nil => simp [strchr, List.findIdx?_cons]
  | cons d s ih =>
    have hd : d ≠ c := fun h => hs (by simp [h])
    have hrest := ih fun h => hs (List.mem_cons_of_mem d h)
    unfold strchr at hrest ⊢
    rw [List.cons_append, List.findIdx?_cons, hrest]
    simp [hd]

theorem cut_append {accept m r : Bytes} {c : UInt8} (hm : ∀ d ∈ m, d ∉ accept) (hc : c ∈ accept) :
    cut accept (m ++ c :: r) = some (m, r) := by
  induction m with
  | nil => simp [cut, hc]
  | cons d m ih =>
    have hd : d ∉ accept := hm d (by simp)
    rw [List.cons_append, cut, if_neg hd, ih fun e he => hm e (List.mem_cons_of_mem d he)]
    rfl

theorem cut_eq_none {accept s : Bytes} : cut accept s = none ↔ ∀ c ∈ s, c ∉ accept := by
  induction s with
  | nil => simp [cut]
  | cons d s ih =>
    rw [cut]
    by_cases hd : d ∈ accept
    · simp [hd]
    · simp [hd, ih]

/-- `strpbrk` finds the byte at which `cut` cuts. -/
theorem strpbrk_eq_cut (s accept : Bytes) :
    strpbrk s accept = (cut accept s).map fun p => p.1.length := by
  induction s with
  | nil => simp [strpbrk, cut]
  | cons c s ih =>
    unfold strpbrk at ih ⊢
    rw [List.findIdx?_cons, cut]
    by_cases hc : c ∈ accept
    · simp [hc]
    · simp only [hc, decide_false, Bool.false_eq_true, ↓reduceIte, ih, Option.map_map]
      congr

/-- Skipping `strspn` bytes drops the longest prefix of bytes of `accept`. -/
theorem drop_strspn (s accept : Bytes) :
    s.drop (strspn s accept) = s.dropWhile (· ∈ accept) := by
  have h := List.takeWhile_append_dropWhile (p := fun c => decide (c ∈ accept)) (l := s)
  calc s.drop (strspn s accept)
      = (s.takeWhile (· ∈ accept) ++ s.dropWhile (· ∈ accept)).drop (strspn s accept) := by rw [h]
    _ = s.dropWhile (· ∈ accept) := List.drop_left' rfl

/-- A pointer into a string. -/
theorem cstr_drop_of_le {text : Bytes} {n : Nat} (h : n ≤ (cstr text).length) :
    cstr (text.drop n) = (cstr text).drop n := by
  induction text generalizing n with
  | nil => simp [cstr]
  | cons c s ih =>
    cases n with
    | zero => rfl
    | succ n =>
      by_cases hc : c = 0
      · simp [cstr, hc] at h
      · have hcons : cstr (c :: s) = c :: cstr s := by simp [cstr, hc]
        rw [hcons] at h ⊢
        exact ih (Nat.le_of_succ_le_succ h)

theorem tolower_ne_zero {c : UInt8} (h : c ≠ 0) : tolower c ≠ 0 := by
  unfold tolower
  split
  · rename_i hcase
    intro h0
    have := congrArg UInt8.toNat h0
    have h1 := UInt8.le_iff_toNat_le.mp hcase.1
    have h2 := UInt8.le_iff_toNat_le.mp hcase.2
    simp [UInt8.toNat_add] at this h1 h2
    omega
  · exact h

/-- A string that begins with `b`, up to case, is at least as long. -/
theorem length_le_of_strcasecmp {a b : Bytes} (h : strcasecmp a b = 0) (hb : 0 ∉ b) :
    b.length ≤ a.length := by
  fun_induction strcasecmp a b with
  | case1 => exact le_rfl
  | case2 d ds =>
    have hd : tolower d ≠ 0 := tolower_ne_zero fun h0 => hb (by simp [h0])
    exact absurd (UInt8.toNat_inj.mp (by simpa using h)) hd
  | case3 => simp
  | case4 c cs d ds heq ih =>
    have hle := ih h fun h0 => hb (List.mem_cons_of_mem d h0)
    simpa using hle
  | case5 c cs d ds hne =>
    exact absurd (UInt8.toNat_inj.mp (by omega)) hne

theorem le_length_of_strncasecmp {a b : Bytes} {n : Nat} (h : strncasecmp a b n = 0) (hb : 0 ∉ b)
    (hn : n ≤ b.length) : n ≤ a.length := by
  have hle := length_le_of_strcasecmp h fun h0 => hb (List.mem_of_mem_take h0)
  simp only [List.length_take] at hle
  omega

/-- `s` is `word`, whatever the case of its letters. -/
def AnyCase (s word : Bytes) : Prop := s.map tolower = word.map tolower

instance (s word : Bytes) : Decidable (AnyCase s word) := inferInstanceAs (Decidable (_ = _))

theorem AnyCase.length {s word : Bytes} (h : AnyCase s word) : s.length = word.length := by
  simpa using congrArg List.length h

theorem strcasecmp_eq_zero {a b : Bytes} (ha : 0 ∉ a) (hb : 0 ∉ b) : strcasecmp a b = 0 ↔ AnyCase a b := by
  unfold AnyCase
  fun_induction strcasecmp a b with
  | case1 => simp
  | case2 d ds =>
    have hd : tolower d ≠ 0 := tolower_ne_zero fun h0 => hb (by simp [h0])
    have hpos : ¬ (tolower d).toNat = 0 := fun h => hd (UInt8.toNat_inj.mp h)
    simp [hpos]
  | case3 c cs =>
    have hc : tolower c ≠ 0 := tolower_ne_zero fun h0 => ha (by simp [h0])
    have hpos : ¬ (tolower c).toNat = 0 := fun h => hc (UInt8.toNat_inj.mp h)
    simp [hpos]
  | case4 c cs d ds heq ih =>
    have hrest := ih (fun h0 => ha (List.mem_cons_of_mem c h0)) fun h0 => hb (List.mem_cons_of_mem d h0)
    simp [hrest, heq]
  | case5 c cs d ds hne =>
    have hpos : ¬ ((tolower c).toNat : Int) - (tolower d).toNat = 0 := fun h =>
      hne (UInt8.toNat_inj.mp (by omega))
    simp [hpos, hne]

theorem strncasecmp_eq_zero {a b : Bytes} {n : Nat} (ha : 0 ∉ a) (hb : 0 ∉ b) (hn : b.length ≤ n) :
    strncasecmp a b n = 0 ↔ AnyCase (a.take n) b := by
  rw [strncasecmp, List.take_of_length_le hn]
  exact strcasecmp_eq_zero (fun h => ha (List.mem_of_mem_take h)) hb

/-- No byte of a word is one that its letters are not folded to. -/
theorem AnyCase.not_mem {s word : Bytes} (h : AnyCase s word) {c : UInt8} (hc : tolower c ∉ word.map tolower) :
    c ∉ s := fun hmem => hc (h ▸ List.mem_map_of_mem hmem)

theorem strspn_le_length (s accept : Bytes) : strspn s accept ≤ s.length :=
  (List.takeWhile_sublist _).length_le

theorem lt_length_of_strpbrk {s accept : Bytes} {n : Nat} (h : strpbrk s accept = some n) : n < s.length :=
  (List.findIdx?_eq_some_iff_findIdx_eq.mp h).1

end Knpnl.Lib.CString
