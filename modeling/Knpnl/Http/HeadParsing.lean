import Knpnl.Http.Lines

/-!
# Lines of a request head

What a complete line does to the rest of a head: in the reference, which is not changed by bytes
that come after its verdict, and in a round of the parser, which finds the line with its CR LF
overwritten and reads it as a C string.
-/
namespace Knpnl.Http

open Lib.CString
open Base (FixedBuffer)

section
variable {st : CHECK_STATE} {h : Head} {n : Nat} {l : Bytes}

theorem resume_unended (hl : Clean l) : resume cstr st h n l = .incomplete := by
  unfold resume
  rw [cutLines_unended hl]
  cases st <;> rfl

theorem resume_halfEnded (hl : Clean l) : resume cstr st h n (l ++ [CR]) = .incomplete := by
  unfold resume
  rw [cutLines_halfEnded hl]
  cases st <;> rfl

theorem resume_loneCR (hl : Clean l) {d : UInt8} (hd : d ≠ LF) (rest : Bytes) :
    resume cstr st h n (l ++ CR :: d :: rest) = .rejected := by
  unfold resume
  rw [cutLines_loneCR hl hd]
  cases st <;> rfl

theorem resume_loneLF (hl : Clean l) (rest : Bytes) :
    resume cstr st h n (l ++ LF :: rest) = .rejected := by
  unfold resume
  rw [cutLines_loneLF hl]
  cases st <;> rfl

theorem resume_request (hl : Clean l) (rest : Bytes) :
    resume cstr .CHECK_STATE_REQUEST h n (l ++ CR :: LF :: rest) =
      match requestRules (cstr l) with
      | none => .rejected
      | some (method, url, version) =>
          resume cstr .CHECK_STATE_HEADER { h with method := some method, url, version }
            (n + (l.length + 2)) rest := by
  unfold resume
  rw [cutLines_ended hl]
  rfl

theorem resume_header (hl : Clean l) (rest : Bytes) :
    resume cstr .CHECK_STATE_HEADER h n (l ++ CR :: LF :: rest) =
      if cstr l = [] then
        if h.contentLength ≠ 0 then .body h (n + (l.length + 2)) else .complete h (n + (l.length + 2))
      else resume cstr .CHECK_STATE_HEADER (headerRules h (cstr l)) (n + (l.length + 2)) rest := by
  unfold resume
  rw [cutLines_ended hl]
  rfl

end

/-- Bytes after a first line that does not end well make no difference to what is decided. -/
theorem resume_append_of_ended {st : CHECK_STATE} {h : Head} {n : Nat} {u v : Bytes}
    (hdecided : resume cstr st h n u ≠ .incomplete)
    (hended : ∀ l rest, Clean l → u = l ++ CR :: LF :: rest →
      resume cstr st h n (u ++ v) = resume cstr st h n u) :
    resume cstr st h n (u ++ v) = resume cstr st h n u := by
  cases firstLine u with
  | unended hl => exact absurd (resume_unended hl) hdecided
  | halfEnded l hl hu => exact absurd (hu ▸ resume_halfEnded hl) hdecided
  | ended l rest hl hu => exact hended l rest hl hu
  | loneCR l d rest hl hd hu =>
    rw [hu, List.append_assoc]
    exact (resume_loneCR hl hd _).trans (resume_loneCR hl hd _).symm
  | loneLF l rest hl hu =>
    rw [hu, List.append_assoc]
    exact (resume_loneLF hl _).trans (resume_loneLF hl _).symm

/-- Bytes after headers that are decided make no difference. -/
theorem resume_header_append (h : Head) (n : Nat) (u v : Bytes)
    (hdecided : resume cstr .CHECK_STATE_HEADER h n u ≠ .incomplete) :
    resume cstr .CHECK_STATE_HEADER h n (u ++ v) = resume cstr .CHECK_STATE_HEADER h n u := by
  induction hm : u.length using Nat.strongRecOn generalizing h n u with
  | _ m ih =>
  refine resume_append_of_ended hdecided fun l rest hl hu => ?_
  rw [hu, List.append_assoc]
  rw [hu] at hdecided
  simp only [List.cons_append, resume_header hl] at hdecided ⊢
  split
  · rfl
  · rename_i htext
    rw [if_neg htext] at hdecided
    refine ih rest.length ?_ _ _ rest hdecided rfl
    rw [← hm, hu]
    simp
    omega

theorem resume_request_append (h : Head) (n : Nat) (u v : Bytes)
    (hdecided : resume cstr .CHECK_STATE_REQUEST h n u ≠ .incomplete) :
    resume cstr .CHECK_STATE_REQUEST h n (u ++ v) = resume cstr .CHECK_STATE_REQUEST h n u := by
  refine resume_append_of_ended hdecided fun l rest hl hu => ?_
  rw [hu, List.append_assoc]
  rw [hu] at hdecided
  simp only [List.cons_append, resume_request hl] at hdecided ⊢
  cases hrules : requestRules (cstr l) with
  | none => rfl
  | some q =>
    simp only [hrules] at hdecided
    exact resume_header_append _ _ rest v hdecided

/-- Bytes after a head that is decided do not change what the reference makes of it. -/
theorem referenceHead_append {stream : Bytes} (hdecided : referenceHead cstr stream ≠ .incomplete)
    (v : Bytes) : referenceHead cstr (stream ++ v) = referenceHead cstr stream :=
  resume_request_append {} 0 stream v hdecided

/-- The bytes that complete headers are complete by themselves. -/
theorem resume_header_take {h f : Head} {n m : Nat} {u : Bytes}
    (hdone : resume cstr .CHECK_STATE_HEADER h n u = .complete f m) :
    ∃ j ≤ u.length, m = n + j ∧ resume cstr .CHECK_STATE_HEADER h n (u.take j) = .complete f m := by
  induction hm : u.length using Nat.strongRecOn generalizing h n u with
  | _ k ih =>
  cases firstLine u with
  | unended hl => cases hdone.symm.trans (resume_unended hl)
  | halfEnded l hl hu => cases hdone.symm.trans (hu ▸ resume_halfEnded hl)
  | ended l rest hl hu =>
    have hlen : u.length = l.length + 2 + rest.length := by
      rw [hu]
      simp
      omega
    have htake : ∀ j, u.take (l.length + 2 + j) = l ++ CR :: LF :: rest.take j := by
      intro j
      have hsplit : u = (l ++ [CR, LF]) ++ rest := by simp [hu]
      have hsize : l.length + 2 = (l ++ [CR, LF]).length := by simp
      rw [hsplit, hsize, List.take_length_add_append]
      simp
    rw [hu, resume_header hl] at hdone
    by_cases htext : cstr l = []
    · rw [if_pos htext] at hdone
      by_cases hcl : h.contentLength ≠ 0
      · rw [if_pos hcl] at hdone
        cases hdone
      · rw [if_neg hcl] at hdone
        obtain ⟨rfl, rfl⟩ := HeadOutcome.complete.inj hdone
        refine ⟨l.length + 2, by omega, rfl, ?_⟩
        have hline := htake 0
        rw [Nat.add_zero, List.take_zero] at hline
        rw [hline, resume_header hl, if_pos htext, if_neg hcl]
    · rw [if_neg htext] at hdone
      obtain ⟨j, hj, hend, hdone'⟩ := ih rest.length (by omega) hdone rfl
      refine ⟨l.length + 2 + j, by omega, by omega, ?_⟩
      rw [htake, resume_header hl, if_neg htext, hdone']
  | loneCR l d rest hl hd hu => cases hdone.symm.trans (hu ▸ resume_loneCR hl hd rest)
  | loneLF l rest hl hu => cases hdone.symm.trans (hu ▸ resume_loneLF hl rest)

/-- A head that is complete is so without the bytes that follow. -/
theorem referenceHead_take {stream : Bytes} {f : Head} {n : Nat}
    (hdone : referenceHead cstr stream = .complete f n) :
    n ≤ stream.length ∧ referenceHead cstr (stream.take n) = .complete f n := by
  have hresume : resume cstr .CHECK_STATE_REQUEST {} 0 stream = .complete f n := hdone
  show _ ∧ resume cstr .CHECK_STATE_REQUEST {} 0 (stream.take n) = _
  cases firstLine stream with
  | unended hl => cases hresume.symm.trans (resume_unended hl)
  | halfEnded l hl hu => cases hresume.symm.trans (hu ▸ resume_halfEnded hl)
  | ended l rest hl hu =>
    have hsplit : stream = (l ++ [CR, LF]) ++ rest := by simp [hu]
    have hsize : l.length + 2 = (l ++ [CR, LF]).length := by simp
    have hlen := congrArg List.length hsplit
    rw [List.length_append, ← hsize] at hlen
    rw [hu, resume_request hl] at hresume
    cases hrules : requestRules (cstr l) with
    | none =>
      rw [hrules] at hresume
      cases hresume
    | some q =>
      simp only [hrules] at hresume
      obtain ⟨j, hj, rfl, hdone'⟩ := resume_header_take hresume
      refine ⟨by omega, ?_⟩
      have htake : stream.take (0 + (l.length + 2) + j) = l ++ CR :: LF :: rest.take j := by
        rw [hsplit, Nat.zero_add, hsize, List.take_length_add_append]
        simp
      rw [htake, resume_request hl, hrules]
      exact hdone'
  | loneCR l d rest hl hd hu => cases hresume.symm.trans (hu ▸ resume_loneCR hl hd rest)
  | loneLF l rest hl hu => cases hresume.symm.trans (hu ▸ resume_loneLF hl rest)

/-- The head is open, and the saved index lies before the end of the first line. -/
structure InHead (req : HttpRequest) (u : Bytes) : Prop extends Scanned req.mCheckIndex u where
  phase : req.mCheckState = .CHECK_STATE_REQUEST ∨ req.mCheckState = .CHECK_STATE_HEADER

theorem InHead.append {req : HttpRequest} {u : Bytes} (h : InHead req u) (v : Bytes) :
    InHead req (u ++ v) := ⟨h.toScanned.append v, h.phase⟩

namespace HttpRequest

variable {req : HttpRequest} {buf : FixedBuffer}

/-- The request after a scan of the buffer that stopped at `i`. -/
def scanned (req : HttpRequest) (i : Nat) (line : LINE_STATE) : HttpRequest :=
  { req with mCheckIndex := i, mLineState := line }

@[simp] theorem scanned_head (req : HttpRequest) (i : Nat) (line : LINE_STATE) :
    (req.scanned i line).toHead = req.toHead := rfl

@[simp] theorem scanned_index (req : HttpRequest) (i : Nat) (line : LINE_STATE) :
    (req.scanned i line).mCheckIndex = i := rfl

theorem setText_text (buf : FixedBuffer) : buf.setText buf.text = buf := by
  have : buf.mem.take buf.mReadPtr.toNat ++ buf.text = buf.mem := List.take_append_drop _ _
  simp [FixedBuffer.setText, this]

/-- A round on a line that does not end, or ends badly, returns. -/
theorem round_of_scan (hphase : req.mCheckState ≠ .CHECK_STATE_BODY) {line : LINE_STATE} {i : Nat}
    (hl : parseLine buf.text buf.used req.mCheckIndex = (line, i, buf.text)) (hline : line ≠ .LINE_OK) :
    round req buf = .done ⟨some (if line = .LINE_BAD then .BAD_REQUEST else .NO_REQUEST),
      req.scanned i line, buf⟩ := by
  unfold round
  simp only [hl, setText_text]
  cases line with
  | LINE_OK => exact absurd rfl hline
  | LINE_OPEN => simp [hphase, scanned]
  | LINE_BAD => simp [scanned]

section Ended
variable {l rest junk : Bytes}

/-- A round on a completed line dispatches on the line with its CR LF overwritten. -/
theorem round_ended (hline : parseLine buf.text buf.used req.mCheckIndex =
      (.LINE_OK, l.length + 2, l ++ 0 :: 0 :: (rest ++ junk))) :
    round req buf = dispatch { req with mCheckIndex := l.length + 2, mLineState := .LINE_OK }
      (buf.setText (l ++ 0 :: 0 :: (rest ++ junk))) := by
  unfold round
  simp [hline]

/-- A line is followed by its terminator at the first NUL it contains, or at its end. -/
theorem exists_terminated (l r : Bytes) : ∃ t, l ++ 0 :: r = cstr l ++ 0 :: t := by
  obtain ⟨t, ht⟩ := exists_eq_cstr_append (show 0 ∈ l ++ 0 :: r by simp)
  refine ⟨t, ?_⟩
  have hstr : cstr (l ++ 0 :: r) = cstr l := by
    by_cases h0 : 0 ∈ l
    · obtain ⟨m, hm⟩ := exists_eq_cstr_append h0
      conv_lhs => rw [hm, List.append_assoc]
      exact cstr_append_nul (nulFree_cstr l) _
    · rw [cstr_append_nul h0, cstr_of_nulFree h0]
  rwa [hstr] at ht

theorem drop_append_congr {a b : Bytes} (h : a.length = b.length) (r : Bytes) {n : Nat}
    (hn : a.length ≤ n) : (a ++ r).drop n = (b ++ r).drop n := by
  obtain ⟨k, rfl⟩ := Nat.exists_eq_add_of_le hn
  rw [← List.drop_drop, List.drop_left, h, ← List.drop_drop, List.drop_left]

theorem length_cstr_le (l : Bytes) : (cstr l).length ≤ l.length :=
  (List.takeWhile_sublist _).length_le

/-- A request line that is accepted is consumed, and its fields are set. -/
theorem round_accepted (hok : buf.Ok) (hst : req.mCheckState = .CHECK_STATE_REQUEST)
    (htext : buf.text = l ++ CR :: LF :: (rest ++ junk))
    (hline : parseLine buf.text buf.used req.mCheckIndex =
      (.LINE_OK, l.length + 2, l ++ 0 :: 0 :: (rest ++ junk)))
    (hused : buf.used = l.length + 2 + rest.length) {method : METHOD} {url version : Bytes}
    (hr : requestRules (cstr l) = some (method, url, version)) :
    ∃ buf', round req buf = .again
        { req with
          method := some method, url, version, mCheckState := .CHECK_STATE_HEADER
          mCheckIndex := 0, mLineState := .LINE_OK } buf' ∧
      buf'.Ok ∧ buf'.cap = buf.cap ∧ buf'.unread = rest := by
  rw [round_ended hline]
  have hlen : (l ++ 0 :: 0 :: (rest ++ junk)).length = buf.text.length := by simp [htext]
  obtain ⟨_, htext'⟩ := hok.setText hlen
  obtain ⟨t, ht⟩ := exists_terminated l (0 :: (rest ++ junk))
  rw [ht] at htext' ⊢
  have hrules := parseRequest_rules
    { req with mCheckIndex := l.length + 2, mLineState := .LINE_OK } (nulFree_cstr l) t
  simp only [dispatch, hst, htext', hr] at hrules ⊢
  obtain ⟨s', hs', hp⟩ := hrules
  simp only [hp, hok.setText_setText]
  have hlen' : (s' ++ 0 :: t).length = buf.text.length := by
    rw [← hlen, ht, List.length_append, List.length_append, hs']
  have hdrop : (s' ++ 0 :: t).drop (l.length + 2) = rest ++ junk := by
    have hle := length_cstr_le l
    rw [drop_append_congr hs' (0 :: t) (by omega), ← ht, ← List.drop_drop, List.drop_left]
    rfl
  obtain ⟨h1, h2, h3⟩ := hok.consume hlen' hdrop hused
  exact ⟨_, rfl, h1, h2, h3⟩

/-- A header line: the end of the head, or a field, and the line is consumed. -/
theorem round_header (hok : buf.Ok) (hst : req.mCheckState = .CHECK_STATE_HEADER)
    (htext : buf.text = l ++ CR :: LF :: (rest ++ junk))
    (hline : parseLine buf.text buf.used req.mCheckIndex =
      (.LINE_OK, l.length + 2, l ++ 0 :: 0 :: (rest ++ junk)))
    (hused : buf.used = l.length + 2 + rest.length) :
    ∃ buf', buf'.Ok ∧ buf'.cap = buf.cap ∧ buf'.unread = rest ∧
      round req buf =
        if cstr l = [] then
          if req.contentLength ≠ 0 then
            .again { req with
              mCheckState := .CHECK_STATE_BODY, mCheckIndex := 0, mLineState := .LINE_OK } buf'
          else
            .done ⟨some .GET_REQUEST, { req with
              mCheckState := .CHECK_STATE_SUCCESS, mCheckIndex := 0, mLineState := .LINE_OK }, buf'⟩
        else
          .again { req with
            toHead := headerRules req.toHead (cstr l), mCheckIndex := 0, mLineState := .LINE_OK } buf' := by
  rw [round_ended hline]
  have hlen : (l ++ 0 :: 0 :: (rest ++ junk)).length = buf.text.length := by simp [htext]
  obtain ⟨hok', htext'⟩ := hok.setText hlen
  obtain ⟨t, ht⟩ := exists_terminated l (0 :: (rest ++ junk))
  have hdrop : (l ++ 0 :: 0 :: (rest ++ junk)).drop (l.length + 2) = rest ++ junk := by
    rw [← List.drop_drop, List.drop_left]
    rfl
  obtain ⟨h1, h2, h3⟩ := hok.consume hlen hdrop hused
  refine ⟨_, h1, h2, h3, ?_⟩
  simp only [dispatch, hst, htext']
  rw [ht, parseHeader_rules _ (nulFree_cstr l) t, ← ht]
  by_cases hempty : cstr l = []
  · by_cases hcl : req.contentLength = 0
    · simp [hempty, hcl]
    · simp [hempty, hcl]
  · simp [hempty]

end Ended

end HttpRequest

end Knpnl.Http
