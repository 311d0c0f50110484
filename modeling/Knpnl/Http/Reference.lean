import Knpnl.Http.Request

/-!
# A reference for request heads

The reference reads a whole stream at once: it cuts the stream at CR LF, reads the
first line by the rules of `parseRequest` and every later one by those of
`parseHeader`, and ends at the first empty line. A CR without LF or a LF without CR
rejects. `view` is how a line is read as a string: `id` takes the whole line, `cstr`
only what stands before a NUL, which makes no difference on a stream without NUL.
-/
namespace Knpnl.Http

open Lib.CString

/-- Why the cutting of a stream into lines ended. -/
inductive CutEnd where
  | more
  | bad
  deriving DecidableEq

/-- The lines of a stream up to the first malformed line end, `cur` being the bytes of
the first line that were cut off before. -/
def cutLines (cur : Bytes) : Bytes → List Bytes × CutEnd
  | [] => ([], .more)
  | [c] => ([], if c = LF then .bad else .more)
  | c :: d :: rest =>
      if c = CR then
        if d = LF then (cur :: (cutLines [] rest).1, (cutLines [] rest).2) else ([], .bad)
      else if c = LF then ([], .bad)
      else cutLines (cur ++ [c]) (d :: rest)

def methodOf (m : Bytes) : Option METHOD :=
  if strcasecmp m (ascii "GET") = 0 then some .GET
  else if strcasecmp m (ascii "POST") = 0 then some .POST
  else none

/-- Method, target and version of a request line. A target in absolute form is refused
with all others that do not begin with a slash. -/
def requestRules (line : Bytes) : Option (METHOD × Bytes × Bytes) := do
  let (m, rest) ← cut blanks line
  let method ← methodOf m
  let (target, rest) ← cut blanks (rest.dropWhile (· ∈ blanks))
  let version := rest.dropWhile (· ∈ blanks)
  if strcasecmp version (ascii "HTTP/1.1") = 0 ∧ target.head? = some 47 then
    some (method, target, version)
  else none

/-- The value of a header line after a name of `n` bytes. -/
def valueOf (line : Bytes) (n : Nat) : Bytes := (line.drop n).dropWhile (· ∈ blanks)

def headerRules (h : Head) (line : Bytes) : Head :=
  if strncasecmp line (ascii "Connection:") 11 = 0 then
    { h with isAlive := strcasecmp (valueOf line 11) (ascii "keep-isAlive") = 0 }
  else if strncasecmp line (ascii "Content-length:") 15 = 0 then
    { h with contentLength := atol (valueOf line 15) }
  else if strncasecmp line (ascii "Host:") 5 = 0 then { h with host := valueOf line 5 }
  else h

inductive HeadOutcome where
  | incomplete
  | rejected
  | complete (head : Head) (consumed : Nat)
  | body (head : Head) (consumed : Nat)
  deriving DecidableEq

def CutEnd.outcome : CutEnd → HeadOutcome
  | .more => .incomplete
  | .bad => .rejected

section
variable (view : Bytes → Bytes)

/-- The header lines, after `n` bytes have been consumed. -/
def headers (h : Head) (n : Nat) : List Bytes → CutEnd → HeadOutcome
  | [], e => e.outcome
  | l :: ls, e =>
      if view l = [] then
        if h.contentLength ≠ 0 then .body h (n + l.length + 2) else .complete h (n + l.length + 2)
      else headers (headerRules h (view l)) (n + l.length + 2) ls e

def requestLine (h : Head) (n : Nat) : List Bytes → CutEnd → HeadOutcome
  | [], e => e.outcome
  | l :: ls, e =>
      match requestRules (view l) with
      | none => .rejected
      | some (method, url, version) =>
          headers view { h with method := some method, url, version } (n + l.length + 2) ls e

/-- The rest of a head, from the state `st` with the fields `h` and `n` bytes consumed. -/
def resume (st : CHECK_STATE) (h : Head) (n : Nat) (u : Bytes) : HeadOutcome :=
  match st with
  | .CHECK_STATE_REQUEST => requestLine view h n (cutLines [] u).1 (cutLines [] u).2
  | _ => headers view h n (cutLines [] u).1 (cutLines [] u).2

def referenceHead (stream : Bytes) : HeadOutcome :=
  requestLine view {} 0 (cutLines [] stream).1 (cutLines [] stream).2

end

/-- No CR and no LF. -/
def Clean (l : Bytes) : Prop := ∀ c ∈ l, c ≠ CR ∧ c ≠ LF

instance (l : Bytes) : Decidable (Clean l) := inferInstanceAs (Decidable (∀ c ∈ l, _))

@[simp] theorem clean_nil : Clean [] := by simp [Clean]

@[simp] theorem clean_cons {c : UInt8} {l : Bytes} :
    Clean (c :: l) ↔ (c ≠ CR ∧ c ≠ LF) ∧ Clean l := by simp [Clean]

@[simp] theorem clean_append {l m : Bytes} : Clean (l ++ m) ↔ Clean l ∧ Clean m := by
  simp only [Clean, List.mem_append]
  constructor
  · exact fun h => ⟨fun c hc => h c (Or.inl hc), fun c hc => h c (Or.inr hc)⟩
  · rintro ⟨hl, hm⟩ c (hc | hc)
    · exact hl c hc
    · exact hm c hc

/-- How the first line of `u` ends. -/
inductive FirstLine (u : Bytes) : Prop where
  | unended (h : Clean u)
  | halfEnded (l : Bytes) (h : Clean l) (hu : u = l ++ [CR])
  | ended (l rest : Bytes) (h : Clean l) (hu : u = l ++ CR :: LF :: rest)
  | loneCR (l : Bytes) (d : UInt8) (rest : Bytes) (h : Clean l) (hd : d ≠ LF)
      (hu : u = l ++ CR :: d :: rest)
  | loneLF (l rest : Bytes) (h : Clean l) (hu : u = l ++ LF :: rest)

theorem firstLine (u : Bytes) : FirstLine u := by
  induction u with
  | nil => exact .unended clean_nil
  | cons c u ih =>
    by_cases hcr : c = CR
    · subst hcr
      rcases u with _ | ⟨d, rest⟩
      · exact .halfEnded [] clean_nil rfl
      · by_cases hd : d = LF
        · exact .ended [] rest clean_nil (by rw [hd]; rfl)
        · exact .loneCR [] d rest clean_nil hd rfl
    · by_cases hlf : c = LF
      · exact .loneLF [] u clean_nil (by rw [hlf]; rfl)
      · have hc : c ≠ CR ∧ c ≠ LF := ⟨hcr, hlf⟩
        cases ih with
        | unended h => exact .unended (clean_cons.mpr ⟨hc, h⟩)
        | halfEnded l h hu => exact .halfEnded (c :: l) (clean_cons.mpr ⟨hc, h⟩) (by rw [hu]; rfl)
        | ended l rest h hu => exact .ended (c :: l) rest (clean_cons.mpr ⟨hc, h⟩) (by rw [hu]; rfl)
        | loneCR l d rest h hd hu =>
          exact .loneCR (c :: l) d rest (clean_cons.mpr ⟨hc, h⟩) hd (by rw [hu]; rfl)
        | loneLF l rest h hu => exact .loneLF (c :: l) rest (clean_cons.mpr ⟨hc, h⟩) (by rw [hu]; rfl)

theorem cutLines_skip {l : Bytes} (h : Clean l) (cur : Bytes) {r : Bytes} (hr : r ≠ []) :
    cutLines cur (l ++ r) = cutLines (cur ++ l) r := by
  induction l generalizing cur with
  | nil => simp
  | cons c l ih =>
    obtain ⟨hc, hl⟩ := clean_cons.mp h
    obtain ⟨d, t, ht⟩ := List.exists_cons_of_ne_nil (l := l ++ r) (by simp [hr])
    rw [List.cons_append, ht, cutLines, if_neg hc.1, if_neg hc.2, ← ht, ih hl]
    simp

/-- What was cut off before makes no difference to the end. -/
theorem cutLines_end (cur cur' u : Bytes) : (cutLines cur u).2 = (cutLines cur' u).2 := by
  fun_induction cutLines cur u generalizing cur' with
  | case1 | case2 => rfl
  | case3 => simp [cutLines]
  | case4 cur d rest hd => simp [cutLines, hd]
  | case5 => simp [cutLines, *]
  | case6 cur c d rest hcr hlf ih =>
    rw [ih (cur' ++ [c]), cutLines, if_neg hcr, if_neg hlf]

theorem cutLines_unended {l : Bytes} (h : Clean l) (cur : Bytes) :
    cutLines cur l = ([], .more) := by
  rcases l.eq_nil_or_concat with rfl | ⟨m, c, rfl⟩
  · rfl
  · obtain ⟨hm, hc⟩ := clean_append.mp (List.concat_eq_append ▸ h)
    rw [List.concat_eq_append, cutLines_skip hm cur (by simp)]
    simp [cutLines, (clean_cons.mp hc).1.2]

theorem cutLines_halfEnded {l : Bytes} (h : Clean l) (cur : Bytes) :
    cutLines cur (l ++ [CR]) = ([], .more) := by
  rw [cutLines_skip h cur (by simp)]
  simp [cutLines, CR, LF]

theorem cutLines_ended {l : Bytes} (h : Clean l) (rest : Bytes) :
    cutLines [] (l ++ CR :: LF :: rest) =
      (l :: (cutLines [] rest).1, (cutLines [] rest).2) := by
  rw [cutLines_skip h [] (by simp)]
  simp [cutLines]

theorem cutLines_loneCR {l : Bytes} (h : Clean l) {d : UInt8} (hd : d ≠ LF) (rest : Bytes) :
    cutLines [] (l ++ CR :: d :: rest) = ([], .bad) := by
  rw [cutLines_skip h [] (by simp)]
  simp [cutLines, hd]

theorem cutLines_loneLF {l : Bytes} (h : Clean l) (rest : Bytes) :
    cutLines [] (l ++ LF :: rest) = ([], .bad) := by
  have hlf : ¬ LF = CR := by decide
  rw [cutLines_skip h [] (by simp)]
  cases rest <;> simp [cutLines, hlf]

theorem cutLines_nulFree (cur u : Bytes) (hcur : 0 ∉ cur) (hu : 0 ∉ u) :
    ∀ l ∈ (cutLines cur u).1, 0 ∉ l := by
  fun_induction cutLines cur u with
  | case1 | case2 => simp
  | case3 cur rest ih =>
    have hr : 0 ∉ rest := fun h => hu (by simp [h])
    intro l hl
    rcases List.mem_cons.mp hl with rfl | hl
    · exact hcur
    · exact ih (by simp) hr l hl
  | case4 | case5 => simp
  | case6 cur c d rest hcr hlf ih =>
    simp only [List.mem_cons, not_or] at hu
    exact ih (by simp [hcur, hu.1]) (by simp [hu.2.1, hu.2.2])

theorem headers_view {ls : List Bytes} (hls : ∀ l ∈ ls, 0 ∉ l) (h : Head) (n : Nat) (e : CutEnd) :
    headers cstr h n ls e = headers id h n ls e := by
  induction ls generalizing h n with
  | nil => rfl
  | cons l ls ih =>
    have hl := cstr_of_nulFree (hls l (by simp))
    have ht := ih fun m hm => hls m (by simp [hm])
    simp only [headers, hl, id_eq, ht]

/-- A line without NUL is read whole as a C string. -/
theorem referenceHead_view {stream : Bytes} (h : 0 ∉ stream) :
    referenceHead cstr stream = referenceHead id stream := by
  have hls := cutLines_nulFree [] stream (by simp) h
  unfold referenceHead
  cases hc : (cutLines [] stream).1 with
  | nil => rfl
  | cons l ls =>
    rw [hc] at hls
    have hl := cstr_of_nulFree (hls l (by simp))
    simp only [requestLine, hl, id_eq]
    split
    · rfl
    · exact headers_view (fun m hm => hls m (by simp [hm])) _ _ _

end Knpnl.Http
