import Knpnl.Http.Reference

/-!
# One line of the parser

`parseLine` stops where the first line of the unread bytes stops, whatever index it
starts from before that. On a completed line, `parseRequest` and `parseHeader` follow
the rules of the reference on the string up to the first NUL.
-/
namespace Knpnl.Http

open Lib.CString
open Base (FixedBuffer)

section
variable {l r : Bytes} {sz i : Nat}

private theorem getD_append_cons (l : Bytes) (c : UInt8) (r : Bytes) :
    (l ++ c :: r).getD l.length 0 = c := by
  simp [List.getD]

private theorem getD_append_cons_succ (l : Bytes) (c d : UInt8) (r : Bytes) :
    (l ++ c :: d :: r).getD (l.length + 1) 0 = d := by
  simp [List.getD]

/-- Bytes that are neither CR nor LF are passed over. -/
theorem parseLine_skip (hl : Clean l) (hi : i ≤ l.length) (hsz : l.length ≤ sz) :
    parseLine (l ++ r) sz i = parseLine (l ++ r) sz l.length := by
  induction hk : l.length - i generalizing i with
  | zero => rw [show i = l.length by omega]
  | succ k ih =>
    have hlt : i < l.length := by omega
    have hget : (l ++ r).getD i 0 = l[i] := by
      simp [List.getD, List.getElem?_append_left hlt, List.getElem?_eq_getElem hlt]
    obtain ⟨hcr, hlf⟩ := hl l[i] (List.getElem_mem hlt)
    rw [parseLine, if_pos (by omega)]
    simp only [hget, if_neg hcr, if_neg hlf]
    exact ih (by omega) (by omega)

theorem parseLine_unended (hl : Clean l) (hi : i ≤ l.length) :
    parseLine (l ++ r) l.length i = (.LINE_OPEN, l.length, l ++ r) := by
  rw [parseLine_skip hl hi le_rfl, parseLine, if_neg (by omega)]

theorem parseLine_halfEnded (hl : Clean l) (hi : i ≤ l.length) :
    parseLine (l ++ CR :: r) (l.length + 1) i = (.LINE_OPEN, l.length, l ++ CR :: r) := by
  rw [parseLine_skip hl hi (by omega), parseLine, if_pos (by omega)]
  simp only [getD_append_cons, ↓reduceIte]

theorem parseLine_ended (hl : Clean l) (hi : i ≤ l.length) (hsz : l.length + 2 ≤ sz) :
    parseLine (l ++ CR :: LF :: r) sz i = (.LINE_OK, l.length + 2, l ++ 0 :: 0 :: r) := by
  rw [parseLine_skip hl hi (by omega), parseLine, if_pos (by omega)]
  simp only [getD_append_cons, getD_append_cons_succ, ↓reduceIte]
  rw [if_neg (by omega)]
  simp [List.set_append_right]

theorem parseLine_loneCR (hl : Clean l) (hi : i ≤ l.length) {d : UInt8} (hd : d ≠ LF)
    (hsz : l.length + 2 ≤ sz) :
    parseLine (l ++ CR :: d :: r) sz i = (.LINE_BAD, l.length, l ++ CR :: d :: r) := by
  rw [parseLine_skip hl hi (by omega), parseLine, if_pos (by omega)]
  simp only [getD_append_cons, getD_append_cons_succ, ↓reduceIte, if_neg hd]
  rw [if_neg (by omega)]

/-- The byte before a LF that the scan meets is never a CR: a CR stops the scan. -/
theorem parseLine_loneLF (hl : Clean l) (hi : i ≤ l.length) (hsz : l.length + 1 ≤ sz) :
    parseLine (l ++ LF :: r) sz i = (.LINE_BAD, l.length, l ++ LF :: r) := by
  have hprev : ¬ (l.length > 1 ∧ (l ++ LF :: r).getD (l.length - 1) 0 = CR) := by
    rintro ⟨hlen, hcr⟩
    have hlt : l.length - 1 < l.length := by omega
    have hget : (l ++ LF :: r).getD (l.length - 1) 0 = l[l.length - 1] := by
      simp [List.getD, List.getElem?_append_left hlt, List.getElem?_eq_getElem hlt]
    exact (hl _ (List.getElem_mem hlt)).1 (hget ▸ hcr)
  have hlf : ¬ LF = CR := by decide
  rw [parseLine_skip hl hi (by omega), parseLine, if_pos (by omega)]
  simp only [getD_append_cons, if_neg hlf, ↓reduceIte, if_neg hprev]

end

/-- The first `i` bytes of `u` are there and hold no line end. -/
structure Scanned (i : Nat) (u : Bytes) : Prop where
  index_le : i ≤ u.length
  clean : Clean (u.take i)

namespace Scanned

variable {i : Nat} {u l r : Bytes}

theorem zero (u : Bytes) : Scanned 0 u := ⟨Nat.zero_le _, by simp⟩

theorem whole (hl : Clean l) (r : Bytes) : Scanned l.length (l ++ r) :=
  ⟨by simp, by rwa [List.take_left]⟩

theorem append (h : Scanned i u) (v : Bytes) : Scanned i (u ++ v) := by
  refine ⟨?_, ?_⟩
  · have := h.index_le
    simp
    omega
  · rw [List.take_append_of_le_length h.index_le]
    exact h.clean

/-- The index lies in the first line. -/
theorem le_line {c : UInt8} (h : Scanned i (l ++ c :: r)) (hc : c = CR ∨ c = LF) : i ≤ l.length := by
  by_contra hgt
  have hmem : c ∈ (l ++ c :: r).take i := by
    rw [List.take_append, List.mem_append]
    right
    obtain ⟨k, hk⟩ : ∃ k, i - l.length = k + 1 := ⟨i - l.length - 1, by omega⟩
    rw [hk]
    simp
  obtain ⟨hcr, hlf⟩ := h.clean c hmem
  exact hc.elim hcr hlf

end Scanned

/-- What `parseLine` makes of the unread bytes of a buffer, by how their first line ends. -/
inductive LineScan (buf : FixedBuffer) (i : Nat) : Prop where
  | unended (hl : Clean buf.unread)
      (hline : parseLine buf.text buf.used i = (.LINE_OPEN, buf.unread.length, buf.text))
  | halfEnded (l : Bytes) (hl : Clean l) (hu : buf.unread = l ++ [CR])
      (hline : parseLine buf.text buf.used i = (.LINE_OPEN, l.length, buf.text))
  | ended (l rest junk : Bytes) (hl : Clean l) (hu : buf.unread = l ++ CR :: LF :: rest)
      (htext : buf.text = l ++ CR :: LF :: (rest ++ junk))
      (hline : parseLine buf.text buf.used i =
        (.LINE_OK, l.length + 2, l ++ 0 :: 0 :: (rest ++ junk)))
  | loneCR (l : Bytes) (d : UInt8) (rest : Bytes) (hl : Clean l) (hd : d ≠ LF)
      (hu : buf.unread = l ++ CR :: d :: rest)
      (hline : parseLine buf.text buf.used i = (.LINE_BAD, l.length, buf.text))
  | loneLF (l rest : Bytes) (hl : Clean l) (hu : buf.unread = l ++ LF :: rest)
      (hline : parseLine buf.text buf.used i = (.LINE_BAD, l.length, buf.text))

/-- The scan stops where the first line of the unread bytes does. -/
theorem lineScan {buf : FixedBuffer} {i : Nat} (hok : buf.Ok) (hi : Scanned i buf.unread) :
    LineScan buf i := by
  have hused : buf.used = buf.unread.length := hok.unread_length.symm
  have htext := hok.text_eq
  generalize hjunk : buf.text.drop buf.used = junk at htext
  cases firstLine buf.unread with
  | unended hl =>
    have hline := parseLine_unended (r := junk) hl hi.index_le
    rw [← htext, ← hused] at hline
    exact .unended hl (hused ▸ hline)
  | halfEnded l hl hu =>
    have hline := parseLine_halfEnded (r := junk) hl ((hu ▸ hi).le_line (Or.inl rfl))
    have hsplit : buf.text = l ++ CR :: junk := by rw [htext, hu]; simp
    have hlen : buf.used = l.length + 1 := by rw [hused, hu]; simp
    rw [← hsplit, ← hlen] at hline
    exact .halfEnded l hl hu hline
  | ended l rest hl hu =>
    have hsplit : buf.text = l ++ CR :: LF :: (rest ++ junk) := by rw [htext, hu]; simp
    have hlen : l.length + 2 ≤ buf.used := by rw [hused, hu]; simp
    have hline := parseLine_ended (r := rest ++ junk) hl ((hu ▸ hi).le_line (Or.inl rfl)) hlen
    rw [← hsplit] at hline
    exact .ended l rest junk hl hu hsplit hline
  | loneCR l d rest hl hd hu =>
    have hsplit : buf.text = l ++ CR :: d :: (rest ++ junk) := by rw [htext, hu]; simp
    have hlen : l.length + 2 ≤ buf.used := by rw [hused, hu]; simp
    have hline := parseLine_loneCR (r := rest ++ junk) hl ((hu ▸ hi).le_line (Or.inl rfl)) hd hlen
    rw [← hsplit] at hline
    exact .loneCR l d rest hl hd hu hline
  | loneLF l rest hl hu =>
    have hsplit : buf.text = l ++ LF :: (rest ++ junk) := by rw [htext, hu]; simp
    have hlen : l.length + 1 ≤ buf.used := by rw [hused, hu]; simp
    have hline := parseLine_loneLF (r := rest ++ junk) hl ((hu ▸ hi).le_line (Or.inr rfl)) hlen
    rw [← hsplit] at hline
    exact .loneLF l rest hl hu hline

namespace HttpRequest

variable {s t : Bytes}

private theorem cstr_drop (p : Bytes) {s : Bytes} (hs : 0 ∉ s) (t : Bytes) :
    cstr ((p ++ (s ++ 0 :: t)).drop p.length) = s := by
  rw [List.drop_left, cstr_append_nul hs]

private theorem set_append_cons (a : Bytes) (c d : UInt8) (r : Bytes) :
    (a ++ c :: r).set a.length d = a ++ d :: r := by
  simp [List.set_append_right]

private theorem nulFree_dropWhile {s : Bytes} (hs : 0 ∉ s) (f : UInt8 → Bool) :
    0 ∉ s.dropWhile f := fun h => hs ((List.dropWhile_sublist f).subset h)

/-- The part of `requestRules` after the method. -/
def targetRules (rest : Bytes) : Option (Bytes × Bytes) := do
  let (target, rest) ← cut blanks (rest.dropWhile (· ∈ blanks))
  let version := rest.dropWhile (· ∈ blanks)
  if strcasecmp version (ascii "HTTP/1.1") = 0 ∧ target.head? = some 47 then
    some (target, version)
  else none

theorem requestRules_eq (line : Bytes) : requestRules line =
    (cut blanks line).bind fun p => (methodOf p.1).bind fun m =>
      (targetRules p.2).map fun q => (m, q.1, q.2) := by
  unfold requestRules targetRules
  cases cut blanks line with
  | none => rfl
  | some p =>
    cases hm : methodOf p.1 with
    | none => simp [hm]
    | some m =>
      cases hc : cut blanks (p.2.dropWhile (· ∈ blanks)) with
      | none => simp [hm, hc]
      | some q =>
        simp only [hm, hc, Option.bind_eq_bind, Option.bind_some]
        split <;> simp_all

/-- What `parseTarget` makes of the member `url` before it looks at the first byte of the target:
`strchr` finds the first slash of the scheme. -/
def absoluteForm (req : HttpRequest) (target : Bytes) : HttpRequest :=
  if strncasecmp target (ascii "http://") 7 = 0 then
    match strchr target 47 with
    | some k => { req with url := target.drop k }
    | none => { req with url := req.url ++ [7] }
  else req

/-- `parseTarget` at offset `p.length`, where the string `s` begins. -/
theorem parseTarget_eq (req : HttpRequest) (p : Bytes) (hs : 0 ∉ s) (t : Bytes) :
    parseTarget req (p ++ (s ++ 0 :: t)) p.length =
      match cut blanks (s.dropWhile (· ∈ blanks)) with
      | none => (.BAD_REQUEST, req, p ++ (s ++ 0 :: t))
      | some (target, rest) =>
        let text := p ++ (s.takeWhile (· ∈ blanks) ++ target ++ 0 :: rest ++ 0 :: t)
        let version := rest.dropWhile (· ∈ blanks)
        if strcasecmp version (ascii "HTTP/1.1") ≠ 0 then (.BAD_REQUEST, req, text)
        else if target.head? ≠ some 47 then (.BAD_REQUEST, absoluteForm req target, text)
        else (.NO_REQUEST, { req with url := target, version, mCheckState := .CHECK_STATE_HEADER }, text) := by
  obtain ⟨sp, hspEq, hsplit, hlen⟩ : ∃ sp, s.takeWhile (· ∈ blanks) = sp ∧
      s = sp ++ s.dropWhile (· ∈ blanks) ∧ sp.length = strspn s blanks :=
    ⟨s.takeWhile (· ∈ blanks), rfl, (List.takeWhile_append_dropWhile).symm, rfl⟩
  have hs1 := nulFree_dropWhile hs (· ∈ blanks)
  unfold parseTarget
  rw [cstr_drop p hs, hspEq]
  generalize s.dropWhile (· ∈ blanks) = s1 at hsplit hs1
  have hoff : p.length + strspn s blanks = (p ++ sp).length := by simp [hlen]
  have htext : p ++ (s ++ 0 :: t) = (p ++ sp) ++ (s1 ++ 0 :: t) := by rw [hsplit]; simp
  simp only [hoff, htext, cstr_drop (p ++ sp) hs1, strpbrk_eq_cut]
  cases hc : cut blanks s1 with
  | none => rfl
  | some q =>
    obtain ⟨target, rest⟩ := q
    obtain ⟨_, c, _, rfl⟩ := cut_eq_some hc
    have htar : 0 ∉ target := fun h => hs1 (by simp [h])
    have hrest : 0 ∉ rest := fun h => hs1 (by simp [h])
    have hver := nulFree_dropWhile hrest (· ∈ blanks)
    have hset : ((p ++ sp) ++ (target ++ c :: rest ++ 0 :: t)).set ((p ++ sp).length + target.length) 0 =
        (p ++ sp) ++ (target ++ 0 :: (rest ++ 0 :: t)) := by
      have h := set_append_cons (p ++ sp ++ target) c 0 (rest ++ 0 :: t)
      rw [List.length_append] at h
      simpa only [List.append_assoc, List.cons_append] using h
    have hurl : cstr (((p ++ sp) ++ (target ++ 0 :: (rest ++ 0 :: t))).drop (p ++ sp).length) =
        target := cstr_drop (p ++ sp) htar _
    have hfirst : ((p ++ sp) ++ (target ++ 0 :: (rest ++ 0 :: t))).getD (p ++ sp).length 0 ≠ 47 ↔
        target.head? ≠ some 47 := by
      cases target <;> simp [List.getD]
    have hassoc : (p ++ sp) ++ (target ++ 0 :: (rest ++ 0 :: t)) =
        (p ++ sp ++ target ++ [0]) ++ (rest ++ 0 :: t) := by simp
    have hplen : (p ++ sp).length + target.length + 1 = (p ++ sp ++ target ++ [0]).length := by
      simp only [List.length_append, List.length_singleton]
    have hrestStr : cstr (((p ++ sp) ++ (target ++ 0 :: (rest ++ 0 :: t))).drop
        ((p ++ sp).length + target.length + 1)) = rest := by
      rw [hassoc, hplen, cstr_drop _ hrest]
    have hverStr : cstr (((p ++ sp) ++ (target ++ 0 :: (rest ++ 0 :: t))).drop
        ((p ++ sp).length + target.length + 1 + strspn rest blanks)) =
        rest.dropWhile (· ∈ blanks) := by
      have hsp := drop_strspn rest blanks
      have hle : strspn rest blanks ≤ rest.length := (List.takeWhile_sublist _).length_le
      rw [hassoc, hplen, ← List.drop_drop, List.drop_left, List.drop_append_of_le_length hle, hsp,
        cstr_append_nul hver]
    -- the path that `strchr` finds is read from the text, and lies in the target
    have hpath : ∀ k, strchr target 47 = some k →
        cstr (((p ++ sp) ++ (target ++ 0 :: (rest ++ 0 :: t))).drop ((p ++ sp).length + k)) =
          target.drop k := by
      intro k hk
      have hle : k ≤ target.length := (List.findIdx?_eq_some_iff_findIdx_eq.mp hk).1.le
      rw [← List.drop_drop, List.drop_left, cstr_drop_of_le (by rwa [cstr_append_nul htar]),
        cstr_append_nul htar]
    have hbytes : (p ++ sp) ++ (target ++ 0 :: (rest ++ 0 :: t)) =
        p ++ (sp ++ target ++ 0 :: rest ++ 0 :: t) := by simp
    simp only [Option.map_some, hset, hrestStr, hverStr, hurl, hfirst, absoluteForm]
    by_cases habsolute : strncasecmp target (ascii "http://") 7 = 0
    · cases hk : strchr target 47 with
      | none => simp only [habsolute, ↓reduceIte, hbytes]
      | some k =>
        simp only [habsolute, ↓reduceIte, hpath k hk]
        rw [hbytes]
    · simp only [habsolute, ↓reduceIte, hbytes]

theorem absoluteForm_state (req : HttpRequest) (target : Bytes) :
    (absoluteForm req target).mCheckState = req.mCheckState := by
  unfold absoluteForm
  repeat' split
  all_goals rfl

theorem parseTarget_rules (req : HttpRequest) (p : Bytes) (hs : 0 ∉ s) (t : Bytes) :
    match targetRules s with
    | none => (parseTarget req (p ++ (s ++ 0 :: t)) p.length).1 = .BAD_REQUEST ∧
        (parseTarget req (p ++ (s ++ 0 :: t)) p.length).2.1.mCheckState = req.mCheckState
    | some (url, version) => ∃ s', s'.length = s.length ∧
        parseTarget req (p ++ (s ++ 0 :: t)) p.length =
          (.NO_REQUEST, { req with url, version, mCheckState := .CHECK_STATE_HEADER },
            p ++ (s' ++ 0 :: t)) := by
  rw [parseTarget_eq req p hs t]
  unfold targetRules
  cases hc : cut blanks (s.dropWhile (· ∈ blanks)) with
  | none => exact ⟨rfl, rfl⟩
  | some q =>
    obtain ⟨target, rest⟩ := q
    obtain ⟨_, c, _, hsplit⟩ := cut_eq_some hc
    have hlen : (s.takeWhile (· ∈ blanks) ++ target ++ 0 :: rest).length = s.length := by
      conv_rhs => rw [← List.takeWhile_append_dropWhile (p := (· ∈ blanks)) (l := s), hsplit]
      simp
    by_cases hv : strcasecmp (rest.dropWhile (· ∈ blanks)) (ascii "HTTP/1.1") = 0
    · by_cases hslash : target.head? = some 47
      · simp only [Option.bind_eq_bind, Option.bind_some, hv, hslash, and_self, ↓reduceIte, ne_eq,
          not_true_eq_false]
        exact ⟨_, hlen, rfl⟩
      · simp only [Option.bind_eq_bind, Option.bind_some, hv, hslash, and_false, ↓reduceIte, ne_eq,
          not_true_eq_false, not_false_eq_true, true_and]
        exact absoluteForm_state req target
    · simp [hv]

/-- `parseRequest` on a line whose string is `s`. -/
theorem parseRequest_eq (req : HttpRequest) (hs : 0 ∉ s) (t : Bytes) :
    parseRequest req (s ++ 0 :: t) =
      match cut blanks s with
      | none => (.BAD_REQUEST, req, s ++ 0 :: t)
      | some (m, rest) =>
        match methodOf m with
        | none => (.BAD_REQUEST, req, m ++ [0] ++ (rest ++ 0 :: t))
        | some method =>
          parseTarget { req with method := some method } (m ++ [0] ++ (rest ++ 0 :: t)) (m ++ [0]).length := by
  unfold parseRequest
  rw [cstr_append_nul hs, strpbrk_eq_cut]
  cases hc : cut blanks s with
  | none => rfl
  | some q =>
    obtain ⟨m, rest⟩ := q
    obtain ⟨_, c, _, rfl⟩ := cut_eq_some hc
    have hm : 0 ∉ m := fun h => hs (by simp [h])
    have hset : (m ++ c :: rest ++ 0 :: t).set m.length 0 = m ++ [0] ++ (rest ++ 0 :: t) := by
      have h := set_append_cons m c 0 (rest ++ 0 :: t)
      simpa only [List.append_assoc, List.cons_append, List.nil_append] using h
    have hstr : cstr (m ++ [0] ++ (rest ++ 0 :: t)) = m := by
      rw [List.append_assoc]
      exact cstr_append_nul hm _
    have hlen : m.length + 1 = (m ++ [0]).length := by simp
    simp only [Option.map_some, hset, hstr, methodOf, hlen]
    by_cases hget : strcasecmp m (ascii "GET") = 0
    · simp only [hget, ↓reduceIte]
    · by_cases hpost : strcasecmp m (ascii "POST") = 0
      · simp only [hget, hpost, ↓reduceIte]
      · simp only [hget, hpost, ↓reduceIte]

/-- On a line whose string is `s`, `parseRequest` follows the rules of the reference. -/
theorem parseRequest_rules (req : HttpRequest) (hs : 0 ∉ s) (t : Bytes) :
    match requestRules s with
    | none => (parseRequest req (s ++ 0 :: t)).1 = .BAD_REQUEST ∧
        (parseRequest req (s ++ 0 :: t)).2.1.mCheckState = req.mCheckState
    | some (method, url, version) => ∃ s', s'.length = s.length ∧
        parseRequest req (s ++ 0 :: t) =
          (.NO_REQUEST,
            { req with method := some method, url, version, mCheckState := .CHECK_STATE_HEADER },
            s' ++ 0 :: t) := by
  rw [requestRules_eq, parseRequest_eq req hs t]
  cases hc : cut blanks s with
  | none => exact ⟨rfl, rfl⟩
  | some q =>
    obtain ⟨m, rest⟩ := q
    obtain ⟨_, c, _, rfl⟩ := cut_eq_some hc
    have hrest : 0 ∉ rest := fun h => hs (by simp [h])
    cases hm : methodOf m with
    | none => simp [hm]
    | some method =>
      have ht := parseTarget_rules { req with method := some method } (m ++ [0]) hrest t
      cases hr : targetRules rest with
      | none =>
        simp only [hr] at ht
        simpa only [Option.bind_some, hm, hr, Option.map_none] using ht
      | some r =>
        simp only [hr] at ht
        obtain ⟨s', hs', hp⟩ := ht
        simp only [Option.bind_some, hm, hr, Option.map_some]
        refine ⟨m ++ 0 :: s', by simp [hs'], ?_⟩
        rw [hp]
        simp

/-- `s'` is `s` with some of its bytes replaced by NUL. -/
structure Overwritten (s s' : Bytes) : Prop where
  length : s'.length = s.length
  bytes : ∀ c ∈ s', c = 0 ∨ c ∈ s

theorem Overwritten.refl (s : Bytes) : Overwritten s s := ⟨rfl, fun _ h => Or.inr h⟩

theorem Overwritten.append {s s' : Bytes} (h : Overwritten s s') (p : Bytes) :
    Overwritten (p ++ s) (p ++ s') := by
  refine ⟨by simp [h.length], fun d hd => ?_⟩
  have hbytes := h.bytes d
  simp only [List.mem_append] at hd ⊢
  tauto

/-- One byte of `s` is replaced. -/
theorem overwritten_at (m : Bytes) (c : UInt8) {r r' : Bytes} (h : Overwritten r r') :
    Overwritten (m ++ c :: r) (m ++ 0 :: r') := by
  refine Overwritten.append ⟨by simp [h.length], fun d hd => ?_⟩ m
  have hbytes := h.bytes d
  simp only [List.mem_cons] at hd ⊢
  tauto

/-- `parseTarget` overwrites bytes of its string only. -/
theorem parseTarget_overwrites (req : HttpRequest) (p : Bytes) (hs : 0 ∉ s) (t : Bytes) :
    ∃ s', Overwritten s s' ∧ (parseTarget req (p ++ (s ++ 0 :: t)) p.length).2.2 = p ++ (s' ++ 0 :: t) := by
  rw [parseTarget_eq req p hs t]
  cases hc : cut blanks (s.dropWhile (· ∈ blanks)) with
  | none => exact ⟨s, .refl s, rfl⟩
  | some q =>
    obtain ⟨target, rest⟩ := q
    obtain ⟨_, c, _, hsplit⟩ := cut_eq_some hc
    refine ⟨s.takeWhile (· ∈ blanks) ++ target ++ 0 :: rest, ?_, ?_⟩
    · conv_lhs => rw [← List.takeWhile_append_dropWhile (p := (· ∈ blanks)) (l := s), hsplit]
      rw [List.append_assoc]
      exact (overwritten_at target c (.refl rest)).append _
    · dsimp only
      repeat' split
      all_goals rfl

/-- `parseRequest` overwrites bytes of its string only, and leaves no blank before the first NUL. -/
theorem parseRequest_overwrites (req : HttpRequest) (hs : 0 ∉ s) (t : Bytes) :
    ∃ s', Overwritten s s' ∧ (parseRequest req (s ++ 0 :: t)).2.2 = s' ++ 0 :: t ∧
      ∀ c ∈ cstr (s' ++ 0 :: t), c ∉ blanks := by
  rw [parseRequest_eq req hs t]
  cases hc : cut blanks s with
  | none =>
    refine ⟨s, .refl s, rfl, ?_⟩
    rw [cstr_append_nul hs]
    exact cut_eq_none.mp hc
  | some q =>
    obtain ⟨m, rest⟩ := q
    obtain ⟨hblank, c, _, rfl⟩ := cut_eq_some hc
    have hm : 0 ∉ m := fun h => hs (by simp [h])
    have hrest : 0 ∉ rest := fun h => hs (by simp [h])
    have hstr : ∀ r, ∀ d ∈ cstr (m ++ 0 :: r ++ 0 :: t), d ∉ blanks := by
      intro r
      rw [List.append_assoc, List.cons_append, cstr_append_nul hm]
      exact hblank
    cases hmethod : methodOf m with
    | none => exact ⟨m ++ 0 :: rest, overwritten_at m c (.refl rest), by simp [hmethod], hstr rest⟩
    | some method =>
      obtain ⟨r, hr, htext⟩ := parseTarget_overwrites { req with method := some method } (m ++ [0]) hrest t
      simp only [hmethod, htext]
      exact ⟨m ++ 0 :: r, overwritten_at m c hr, by simp, hstr r⟩

theorem headerValue_eq (s : Bytes) (n : Nat) : headerValue s n = valueOf s n := drop_strspn _ _

/-- On an empty string the head is over; on any other the line is folded into the fields. -/
theorem parseHeader_rules (req : HttpRequest) (hs : 0 ∉ s) (t : Bytes) :
    parseHeader req (s ++ 0 :: t) =
      if s = [] then
        if req.contentLength ≠ 0 then (.NO_REQUEST, { req with mCheckState := .CHECK_STATE_BODY })
        else (.GET_REQUEST, { req with mCheckState := .CHECK_STATE_SUCCESS })
      else (.NO_REQUEST, { req with toHead := headerRules req.toHead s }) := by
  have hfirst : (s ++ 0 :: t).getD 0 0 = 0 ↔ s = [] := by
    cases s with
    | nil => simp [List.getD]
    | cons c s =>
      have : c ≠ 0 := fun h => hs (by simp [h])
      simp [List.getD, this]
  unfold parseHeader headerRules
  simp only [hfirst, cstr_append_nul hs, headerValue_eq]
  repeat' split
  all_goals rfl

end HttpRequest
end Knpnl.Http
