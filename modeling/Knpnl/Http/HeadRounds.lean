import Knpnl.Http.HeadParsing

/-!
# Rounds while the head is open

A round takes one line, and while the head is open there are seven ways it can go. A request that
has been refused stays refused: a malformed line end is met again by every call, and after a
request line that breaks the rules no blank is left in the string that `parseRequest` reads.
-/
namespace Knpnl.Http

open Lib.CString
open Base (FixedBuffer)
open HttpRequest (Called Round round)

/-- The bytes before the first line end. -/
theorem takeWhile_clean {l : Bytes} {c : UInt8} (hl : Clean l) (hc : c = CR ∨ c = LF) (r : Bytes) :
    (l ++ c :: r).takeWhile (fun d => d ≠ CR ∧ d ≠ LF) = l := by
  rw [List.takeWhile_append_of_pos (by simpa [Clean] using hl)]
  rcases hc with rfl | rfl <;> simp

theorem clean_overwritten {l l' : Bytes} (h : HttpRequest.Overwritten l l') (hl : Clean l) : Clean l' := by
  intro c hc
  rcases h.bytes c hc with rfl | hmem
  · decide
  · exact hl c hmem

/-- No line end in the first line. -/
def Unended (u : Bytes) : Prop := cutLines [] u = ([], .more)

/-- The first line ends in a CR or a LF alone. -/
def Malformed (u : Bytes) : Prop := cutLines [] u = ([], .bad)

instance (u : Bytes) : Decidable (Unended u) := inferInstanceAs (Decidable (_ = _))

instance (u : Bytes) : Decidable (Malformed u) := inferInstanceAs (Decidable (_ = _))

theorem Malformed.not_unended {u : Bytes} (h : Malformed u) : ¬ Unended u := by
  unfold Malformed Unended at *
  rw [h]
  simp

theorem Malformed.append {u : Bytes} (h : Malformed u) (v : Bytes) : Malformed (u ++ v) := by
  unfold Malformed at h ⊢
  cases firstLine u with
  | unended hl =>
    rw [cutLines_unended hl] at h
    cases h
  | halfEnded l hl hu =>
    rw [hu, cutLines_halfEnded hl] at h
    cases h
  | ended l rest hl hu =>
    rw [hu, cutLines_ended hl] at h
    cases h
  | loneCR l d rest hl hd hu =>
    rw [hu, List.append_assoc]
    exact cutLines_loneCR hl hd _
  | loneLF l rest hl hu =>
    rw [hu, List.append_assoc]
    exact cutLines_loneLF hl _

theorem not_unended_ended {l : Bytes} (hl : Clean l) (rest : Bytes) : ¬ Unended (l ++ CR :: LF :: rest) := by
  unfold Unended
  rw [cutLines_ended hl]
  simp

theorem not_malformed_ended {l : Bytes} (hl : Clean l) (rest : Bytes) :
    ¬ Malformed (l ++ CR :: LF :: rest) := by
  unfold Malformed
  rw [cutLines_ended hl]
  simp

theorem resume_malformed {u : Bytes} (h : Malformed u) (st : CHECK_STATE) (f : Head) (n : Nat) :
    resume cstr st f n u = .rejected := by
  have hcut : cutLines [] u = ([], .bad) := h
  unfold resume
  rw [hcut]
  cases st <;> rfl

theorem resume_unendedLine {u : Bytes} (h : Unended u) (st : CHECK_STATE) (f : Head) (n : Nat) :
    resume cstr st f n u = .incomplete := by
  have hcut : cutLines [] u = ([], .more) := h
  unfold resume
  rw [hcut]
  cases st <;> rfl

/-- How the cutting of a stream ends. -/
def cutEnd (u : Bytes) : CutEnd := (cutLines [] u).2

theorem cutEnd_clean {l : Bytes} (hl : Clean l) (r : Bytes) : cutEnd (l ++ r) = cutEnd r := by
  cases r with
  | nil =>
    unfold cutEnd
    rw [List.append_nil, cutLines_unended hl]
    rfl
  | cons c r =>
    unfold cutEnd
    rw [cutLines_skip hl [] (by simp), List.nil_append]
    exact cutLines_end l [] (c :: r)

theorem cutEnd_ended {l : Bytes} (hl : Clean l) (rest : Bytes) :
    cutEnd (l ++ CR :: LF :: rest) = cutEnd rest := by
  unfold cutEnd
  rw [cutLines_ended hl]

/-- A line end that has been overwritten. -/
theorem cutEnd_nul {l : Bytes} (hl : Clean l) (rest : Bytes) :
    cutEnd (l ++ 0 :: 0 :: rest) = cutEnd rest := by
  have hclean : Clean (l ++ [0, 0]) := clean_append.mpr ⟨hl, by simp [CR, LF]⟩
  simpa using cutEnd_clean hclean rest

/-- Where a scan of the bytes `u` stops, unless their first line is malformed. -/
def lineStop (u : Bytes) : Nat :=
  let l := u.takeWhile fun c => c ≠ CR ∧ c ≠ LF
  if [CR, LF] <+: u.drop l.length then l.length + 2 else l.length

theorem lineStop_unended {u : Bytes} (h : Clean u) : lineStop u = u.length := by
  have hall : u.takeWhile (fun c => c ≠ CR ∧ c ≠ LF) = u :=
    List.takeWhile_eq_self_iff.mpr (by simpa [Clean] using h)
  unfold lineStop
  rw [hall]
  simp

theorem lineStop_halfEnded {l : Bytes} (h : Clean l) : lineStop (l ++ [CR]) = l.length := by
  unfold lineStop
  rw [takeWhile_clean h (Or.inl rfl) []]
  simp

theorem lineStop_ended {l : Bytes} (h : Clean l) (rest : Bytes) :
    lineStop (l ++ CR :: LF :: rest) = l.length + 2 := by
  unfold lineStop
  rw [takeWhile_clean h (Or.inl rfl) (LF :: rest)]
  simp

/-- The line `l` of the unread bytes is complete. -/
structure LineOf (b : FixedBuffer) (l rest : Bytes) : Prop where
  clean : Clean l
  unread : b.unread = l ++ CR :: LF :: rest

theorem LineOf.append_eq {b : FixedBuffer} {l rest : Bytes} (h : LineOf b l rest) (v : Bytes) :
    b.unread ++ v = l ++ CR :: LF :: (rest ++ v) := by
  rw [h.unread]
  simp

/-- The bytes behind the line. -/
theorem LineOf.drop {b : FixedBuffer} {l rest : Bytes} (h : LineOf b l rest) :
    b.unread.length = l.length + 2 + rest.length ∧ b.unread.drop (l.length + 2) = rest := by
  have hsplit : b.unread = (l ++ [CR, LF]) ++ rest := by simp [h.unread]
  have hsize : l.length + 2 = (l ++ [CR, LF]).length := by simp
  rw [hsplit, hsize, List.drop_left, List.length_append]
  exact ⟨rfl, rfl⟩

/-- Where the scan of a round ends: the first line has no end yet, a bad one, or is complete. -/
inductive ScanEnd (b : FixedBuffer) (i : Nat) : Prop where
  | unended (line : LINE_STATE) (incomplete : line ≠ .LINE_OK ∧ line ≠ .LINE_BAD) (open_ : Unended b.unread)
      (scanned : Scanned (lineStop b.unread) b.unread) (le : i ≤ lineStop b.unread)
      (hscan : parseLine b.text b.used i = (line, lineStop b.unread, b.text))
  | malformed (j : Nat) (bad : Malformed b.unread) (scanned : Scanned j b.unread) (le : i ≤ j)
      (hscan : parseLine b.text b.used i = (.LINE_BAD, j, b.text))
  | ended (l rest junk : Bytes) (line : LineOf b l rest) (le : i ≤ l.length)
      (htext : b.text = l ++ CR :: LF :: (rest ++ junk))
      (hscan : parseLine b.text b.used i = (.LINE_OK, l.length + 2, l ++ 0 :: 0 :: (rest ++ junk)))

theorem scanEnd {b : FixedBuffer} {i : Nat} (hok : b.Ok) (hi : Scanned i b.unread) : ScanEnd b i := by
  cases lineScan hok hi with
  | unended hl hscan =>
    have hstop := lineStop_unended hl
    refine .unended .LINE_OPEN (by simp) (cutLines_unended hl []) ?_ ?_ (hstop ▸ hscan)
    · simpa [hstop] using Scanned.whole hl []
    · exact hstop ▸ hi.index_le
  | halfEnded l hl hu hscan =>
    have hstop := lineStop_halfEnded hl
    rw [← hu] at hstop
    refine .unended .LINE_OPEN (by simp) (by rw [hu]; exact cutLines_halfEnded hl []) ?_ ?_ (hstop ▸ hscan)
    · rw [hstop, hu]
      exact .whole hl _
    · exact hstop ▸ (hu ▸ hi).le_line (Or.inl rfl)
  | loneCR l d rest hl hd hu hscan =>
    have hbad : Malformed b.unread := by rw [hu]; exact cutLines_loneCR hl hd rest
    exact .malformed l.length hbad (by rw [hu]; exact .whole hl _) ((hu ▸ hi).le_line (Or.inl rfl)) hscan
  | loneLF l rest hl hu hscan =>
    have hbad : Malformed b.unread := by rw [hu]; exact cutLines_loneLF hl rest
    exact .malformed l.length hbad (by rw [hu]; exact .whole hl _) ((hu ▸ hi).le_line (Or.inr rfl)) hscan
  | ended l rest junk hl hu htext hscan =>
    exact .ended l rest junk ⟨hl, hu⟩ ((hu ▸ hi).le_line (Or.inl rfl)) htext hscan

theorem requestRules_of_blankFree {m : Bytes} (h : ∀ c ∈ m, c ∉ blanks) : requestRules m = none := by
  rw [HttpRequest.requestRules_eq, cut_eq_none.mpr h]
  rfl

/-- Every later call finds the head malformed, or its first line without a blank. -/
inductive Refused (req : HttpRequest) (u : Bytes) : Prop where
  | lineEnd (phase : req.mCheckState = .CHECK_STATE_REQUEST ∨ req.mCheckState = .CHECK_STATE_HEADER)
      (scanned : Scanned req.mCheckIndex u) (malformed : Malformed u)
  | line (state : req.mCheckState = .CHECK_STATE_REQUEST) (scanned : Scanned req.mCheckIndex u)
      (m t : Bytes) (split : u = m ++ 0 :: t) (text : ∀ c ∈ m, c ≠ 0 ∧ c ∉ blanks)
      (seen : m.length < req.mCheckIndex)

namespace Refused

variable {req : HttpRequest} {u : Bytes}

theorem phase (h : Refused req u) :
    req.mCheckState = .CHECK_STATE_REQUEST ∨ req.mCheckState = .CHECK_STATE_HEADER := by
  cases h with
  | lineEnd phase => exact phase
  | line state => exact Or.inl state

theorem scanned (h : Refused req u) : Scanned req.mCheckIndex u := by
  cases h with
  | lineEnd _ scanned | line _ scanned => exact scanned

theorem append (h : Refused req u) (v : Bytes) : Refused req (u ++ v) := by
  cases h with
  | lineEnd phase scanned malformed => exact .lineEnd phase (scanned.append v) (malformed.append v)
  | line state scanned m t split text seen =>
    exact .line state (scanned.append v) m (t ++ v) (by simp [split]) text seen

/-- If a line is complete, it is the request line that has been refused. -/
theorem rules_eq_none {l rest : Bytes} (h : Refused req (l ++ CR :: LF :: rest)) (hl : Clean l) :
    req.mCheckState = .CHECK_STATE_REQUEST ∧ requestRules (cstr l) = none := by
  cases h with
  | lineEnd _ _ malformed => exact absurd malformed (not_malformed_ended hl rest)
  | line state scanned m t split text seen =>
    have hle := scanned.le_line (Or.inl rfl)
    have hprefix : m ++ [0] <+: l ++ CR :: LF :: rest := ⟨t, by simp [split]⟩
    obtain ⟨t', ht'⟩ : m ++ [0] <+: l := by
      refine List.prefix_of_prefix_length_le hprefix (List.prefix_append l _) ?_
      simp only [List.length_append, List.length_singleton]
      omega
    have hstr : cstr l = m := by
      rw [← ht', List.append_assoc]
      exact cstr_append_nul (fun h0 => (text 0 h0).1 rfl) t'
    rw [hstr]
    exact ⟨state, requestRules_of_blankFree fun c hc => (text c hc).2⟩

end Refused

/-- The buffer after a line has been consumed: `rest` is left of the unread bytes. -/
structure Consumed (b b' : FixedBuffer) (rest : Bytes) : Prop where
  ok : b'.Ok
  cap_eq : b'.cap = b.cap
  unread : b'.unread = rest

/-- What is left of a request line that has been refused. -/
structure RefusedLine (b : FixedBuffer) (l rest : Bytes) (out : Called) : Prop where
  ret : out.ret = some .BAD_REQUEST
  state : out.req.mCheckState = .CHECK_STATE_REQUEST
  index : out.req.mCheckIndex = l.length + 2
  refused : Refused out.req out.buf.unread
  ok : out.buf.Ok
  cap_eq : out.buf.cap = b.cap
  cutEnd_eq : ∀ v, cutEnd (out.buf.unread ++ v) = cutEnd (rest ++ v)

/-- The ways a round goes while the head is open. -/
inductive HeadRound (r : HttpRequest) (b : FixedBuffer) : Round → Prop where
  | unended (line : LINE_STATE) (i : Nat) (scanned : Scanned i b.unread) (open_ : Unended b.unread) :
      HeadRound r b (.done ⟨some .NO_REQUEST, r.scanned i line, b⟩)
  | malformed (i : Nat) (scanned : Scanned i b.unread) (bad : Malformed b.unread) :
      HeadRound r b (.done ⟨some .BAD_REQUEST, r.scanned i .LINE_BAD, b⟩)
  | refused (l rest : Bytes) (line : LineOf b l rest) (state : r.mCheckState = .CHECK_STATE_REQUEST)
      (rules : requestRules (cstr l) = none) (out : Called) (left : RefusedLine b l rest out) :
      HeadRound r b (.done out)
  | accepted (l rest : Bytes) (line : LineOf b l rest) (state : r.mCheckState = .CHECK_STATE_REQUEST)
      (method : METHOD) (url version : Bytes) (rules : requestRules (cstr l) = some (method, url, version))
      (b' : FixedBuffer) (consumed : Consumed b b' rest) :
      HeadRound r b (.again
        { r with
          method := some method, url, version, mCheckState := .CHECK_STATE_HEADER
          mCheckIndex := 0, mLineState := .LINE_OK } b')
  | field (l rest : Bytes) (line : LineOf b l rest) (state : r.mCheckState = .CHECK_STATE_HEADER)
      (text : cstr l ≠ []) (b' : FixedBuffer) (consumed : Consumed b b' rest) :
      HeadRound r b (.again
        { r with toHead := headerRules r.toHead (cstr l), mCheckIndex := 0, mLineState := .LINE_OK } b')
  | complete (l rest : Bytes) (line : LineOf b l rest) (state : r.mCheckState = .CHECK_STATE_HEADER)
      (empty : cstr l = []) (noBody : r.contentLength = 0) (b' : FixedBuffer)
      (consumed : Consumed b b' rest) :
      HeadRound r b (.done ⟨some .GET_REQUEST,
        { r with mCheckState := .CHECK_STATE_SUCCESS, mCheckIndex := 0, mLineState := .LINE_OK }, b'⟩)
  | body (l rest : Bytes) (line : LineOf b l rest) (state : r.mCheckState = .CHECK_STATE_HEADER)
      (empty : cstr l = []) (hasBody : r.contentLength ≠ 0) (b' : FixedBuffer)
      (consumed : Consumed b b' rest) :
      HeadRound r b (.again
        { r with mCheckState := .CHECK_STATE_BODY, mCheckIndex := 0, mLineState := .LINE_OK } b')

namespace HttpRequest

variable {r : HttpRequest} {b : FixedBuffer} {l rest junk : Bytes}

/-- A completed line whose bytes have been overwritten stays unread. -/
theorem unread_overwritten (hok : b.Ok) {k : Bytes} (hlen : k.length = l.length) (hu : LineOf b l rest)
    (htext : b.text = l ++ CR :: LF :: (rest ++ junk)) :
    (b.setText (k ++ 0 :: 0 :: (rest ++ junk))).Ok ∧
      (b.setText (k ++ 0 :: 0 :: (rest ++ junk))).unread = k ++ 0 :: 0 :: rest := by
  have hused : b.used = (k ++ 0 :: 0 :: rest).length := by
    rw [← hok.unread_length, hu.unread]
    simp [hlen]
  obtain ⟨hok', htext'⟩ := hok.setText (t := k ++ 0 :: 0 :: (rest ++ junk)) (by simp [htext, hlen])
  have hsame : (b.setText (k ++ 0 :: 0 :: (rest ++ junk))).used = b.used := rfl
  have hsplit : k ++ 0 :: 0 :: (rest ++ junk) = (k ++ 0 :: 0 :: rest) ++ junk := by simp
  refine ⟨hok', ?_⟩
  rw [FixedBuffer.unread, htext', hsame, hsplit, hused, List.take_left]

/-- The line end of the first line has been overwritten, and `i` bytes are scanned. -/
structure EndOverwritten (b b' : FixedBuffer) (i : Nat) : Prop where
  ok : b'.Ok
  size : b'.unread.length = b.unread.length
  scanned : Scanned i b'.unread
  cutEnd_eq : ∀ v, cutEnd (b'.unread ++ v) = cutEnd (b.unread ++ v)

theorem endOverwritten (hok : b.Ok) (hu : LineOf b l rest) (htext : b.text = l ++ CR :: LF :: (rest ++ junk)) :
    EndOverwritten b (b.setText (l ++ 0 :: 0 :: (rest ++ junk))) (l.length + 2) := by
  obtain ⟨hok', hunread⟩ := unread_overwritten hok (k := l) rfl hu htext
  have hwhole : Clean (l ++ [0, 0]) := clean_append.mpr ⟨hu.clean, by simp [CR, LF]⟩
  refine ⟨hok', ?_, ?_, fun v => ?_⟩
  · rw [hunread, hu.unread]
    simp
  · rw [hunread]
    simpa using Scanned.whole hwhole rest
  · rw [hunread, hu.unread, List.append_assoc, List.append_assoc]
    exact (cutEnd_nul hu.clean _).trans (cutEnd_ended hu.clean _).symm

/-- The first bytes of a text, after `parseRequest` has overwritten some of its string. -/
theorem overwritten_line {s' t : Bytes} (hs' : Overwritten (cstr l) s') (r : Bytes)
    (ht : l ++ 0 :: r = cstr l ++ 0 :: t) : ∃ l', Overwritten l l' ∧ s' ++ 0 :: t = l' ++ 0 :: r := by
  have hle := length_cstr_le l
  have hdrop : (s' ++ 0 :: t).drop l.length = 0 :: r := by
    rw [drop_append_congr hs'.length (0 :: t) (by rw [hs'.length]; exact hle), ← ht, List.drop_left]
  have htake : l = cstr l ++ (0 :: t).take (l.length - (cstr l).length) := by
    have h := congrArg (List.take l.length) ht
    rw [List.take_left, List.take_append] at h
    rwa [List.take_of_length_le hle] at h
  refine ⟨(s' ++ 0 :: t).take l.length, ⟨?_, ?_⟩, ?_⟩
  · have hlen := congrArg List.length ht
    simp only [List.length_append, List.length_cons] at hlen
    simp only [List.length_take, List.length_append, List.length_cons, hs'.length]
    omega
  · intro c hc
    rw [List.take_append, List.mem_append, hs'.length] at hc
    rcases hc with hc | hc
    · rcases hs'.bytes c (List.mem_of_mem_take hc) with h0 | hmem
      · exact Or.inl h0
      · exact Or.inr ((List.takeWhile_sublist _).subset hmem)
    · right
      rw [htake]
      exact List.mem_append_right _ hc
  · rw [← hdrop, List.take_append_drop]

/-- The line that `parseRequest` refuses stays in the buffer, its bytes partly overwritten. -/
theorem round_refusedLine (hok : b.Ok) (hst : r.mCheckState = .CHECK_STATE_REQUEST) (hline : LineOf b l rest)
    (htext : b.text = l ++ CR :: LF :: (rest ++ junk))
    (hscan : parseLine b.text b.used r.mCheckIndex = (.LINE_OK, l.length + 2, l ++ 0 :: 0 :: (rest ++ junk)))
    (hrules : requestRules (cstr l) = none) :
    ∃ out, round r b = .done out ∧ RefusedLine b l rest out := by
  rw [round_ended hscan]
  obtain ⟨_, htext'⟩ := hok.setText (t := l ++ 0 :: 0 :: (rest ++ junk)) (by simp [htext])
  obtain ⟨t, ht⟩ := exists_terminated l (0 :: (rest ++ junk))
  rw [ht] at htext' ⊢
  have hnul := nulFree_cstr l
  have hcode := parseRequest_rules { r with mCheckIndex := l.length + 2, mLineState := .LINE_OK } hnul t
  have hindex := parseRequest_index { r with mCheckIndex := l.length + 2, mLineState := .LINE_OK }
    (cstr l ++ 0 :: t)
  obtain ⟨s', hs', hover, hblank⟩ := parseRequest_overwrites
    { r with mCheckIndex := l.length + 2, mLineState := .LINE_OK } hnul t
  obtain ⟨l', hl', hbytes⟩ := overwritten_line hs' _ ht
  rw [hrules] at hcode
  simp only [dispatch, hst, htext'] at hcode hindex hover ⊢
  obtain ⟨hbad, hstate⟩ := hcode
  generalize parseRequest _ (cstr l ++ 0 :: t) = p at hbad hstate hindex hover ⊢
  obtain ⟨code, req', text'⟩ := p
  simp only at hbad hstate hindex hover
  subst hbad hover
  have hclean := clean_overwritten hl' hline.clean
  obtain ⟨hok', hunread⟩ := unread_overwritten hok hl'.length hline htext
  refine ⟨⟨some .BAD_REQUEST, req', _⟩, rfl, rfl, hstate, hindex, ?_, ?_, rfl, ?_⟩
  all_goals rw [hok.setText_setText, hbytes]
  · obtain ⟨t', ht'⟩ := exists_terminated l' (0 :: rest)
    obtain ⟨_, htail⟩ := exists_terminated l' (0 :: (rest ++ junk))
    rw [hbytes, htail, cstr_append_nul (nulFree_cstr l')] at hblank
    refine .line hstate ?_ (cstr l') t' (hunread.trans ht') ?_ ?_
    · have hwhole : Clean (l' ++ [0, 0]) := clean_append.mpr ⟨hclean, by simp [CR, LF]⟩
      have hscanned := Scanned.whole hwhole rest
      rw [hunread, hindex, ← hl'.length]
      simpa using hscanned
    · intro c hc
      exact ⟨fun h => nulFree_cstr l' (h ▸ hc), hblank c hc⟩
    · have hle := length_cstr_le l'
      rw [hl'.length] at hle
      show (cstr l').length < req'.mCheckIndex
      omega
  · exact hok'
  · intro v
    rw [hunread, List.append_assoc]
    exact cutEnd_nul hclean _

theorem headRound (hok : b.Ok) (hin : InHead r b.unread) : HeadRound r b (round r b) := by
  have hbody : r.mCheckState ≠ .CHECK_STATE_BODY := by
    rcases hin.phase with h | h <;> simp [h]
  cases scanEnd hok hin.toScanned with
  | unended line incomplete open_ scanned _ hscan =>
    rw [round_of_scan hbody hscan incomplete.1, if_neg incomplete.2]
    exact .unended line _ scanned open_
  | malformed i bad scanned _ hscan =>
    rw [round_of_scan hbody hscan (by simp)]
    exact .malformed i scanned bad
  | ended l rest junk hline _ htext hscan =>
    have hused : b.used = l.length + 2 + rest.length := by
      rw [← hok.unread_length, hline.unread]
      simp
      omega
    rcases hin.phase with hst | hst
    · cases hrules : requestRules (cstr l) with
      | none =>
        obtain ⟨out, hdone, left⟩ := round_refusedLine hok hst hline htext hscan hrules
        rw [hdone]
        exact .refused l rest hline hst hrules out left
      | some q =>
        obtain ⟨method, url, version⟩ := q
        obtain ⟨b', hagain, hok', hcap, hunread⟩ := round_accepted hok hst htext hscan hused hrules
        rw [hagain]
        exact .accepted l rest hline hst method url version hrules b' ⟨hok', hcap, hunread⟩
    · obtain ⟨b', hok', hcap, hunread, hround⟩ := round_header hok hst htext hscan hused
      have hconsumed : Consumed b b' rest := ⟨hok', hcap, hunread⟩
      rw [hround]
      by_cases hempty : cstr l = []
      · by_cases hcl : r.contentLength = 0
        · simp only [hempty, hcl, ↓reduceIte, ne_eq, not_true_eq_false]
          exact .complete l rest hline hst hempty hcl b' hconsumed
        · simp only [hempty, hcl, ↓reduceIte, ne_eq, not_false_eq_true]
          exact .body l rest hline hst hempty hcl b' hconsumed
      · simp only [hempty, ↓reduceIte]
        exact .field l rest hline hst hempty b' hconsumed

end HttpRequest

/-- A round on a request that has been refused. -/
structure RefusedRound (r : HttpRequest) (b : FixedBuffer) (out : Called) : Prop where
  ret : out.ret = some (if Unended b.unread then .NO_REQUEST else .BAD_REQUEST)
  state : out.req.mCheckState = r.mCheckState
  le : r.mCheckIndex ≤ out.req.mCheckIndex
  kept : Malformed b.unread → out.buf.unread = b.unread
  refused : Refused out.req out.buf.unread
  ok : out.buf.Ok
  cap_eq : out.buf.cap = b.cap
  cutEnd_eq : ∀ v, cutEnd (out.buf.unread ++ v) = cutEnd (b.unread ++ v)

namespace HttpRequest

variable {r : HttpRequest} {b : FixedBuffer}

/-- A scan that completes no line. -/
theorem refusedRound_of_scan (hok : b.Ok) (hphase : r.mCheckState ≠ .CHECK_STATE_BODY) {line : LINE_STATE}
    {i : Nat} (hscan : parseLine b.text b.used r.mCheckIndex = (line, i, b.text)) (hline : line ≠ .LINE_OK)
    (hret : Unended b.unread ↔ line ≠ .LINE_BAD) (hle : r.mCheckIndex ≤ i)
    (hrefused : Refused (r.scanned i line) b.unread) :
    ∃ out, round r b = .done out ∧ RefusedRound r b out := by
  refine ⟨_, round_of_scan hphase hscan hline, ?_, rfl, hle, fun _ => rfl, hrefused, hok, rfl, fun _ => rfl⟩
  by_cases hbad : line = .LINE_BAD
  · rw [if_pos hbad, if_neg fun h => hret.mp h hbad]
  · rw [if_neg hbad, if_pos (hret.mpr hbad)]

theorem refusedRound (hok : b.Ok) (h : Refused r b.unread) :
    ∃ out, round r b = .done out ∧ RefusedRound r b out := by
  have hphase : r.mCheckState ≠ .CHECK_STATE_BODY := by
    rcases h.phase with h | h <;> simp [h]
  -- the refusal stays, wherever in the first line the scan has stopped
  have stays : ∀ i line, r.mCheckIndex ≤ i → Scanned i b.unread → Refused (r.scanned i line) b.unread := by
    intro i line hi hscanned
    cases h with
    | lineEnd phase _ malformed => exact .lineEnd phase hscanned malformed
    | line state _ m t split text seen =>
      exact .line state hscanned m t split text (lt_of_lt_of_le seen hi)
  cases scanEnd hok h.scanned with
  | unended line incomplete open_ scanned le hscan =>
    exact refusedRound_of_scan hok hphase hscan incomplete.1 (by simp [open_, incomplete.2]) le
      (stays _ _ le scanned)
  | malformed i bad scanned le hscan =>
    exact refusedRound_of_scan hok hphase hscan (by simp) (by simp [bad.not_unended]) le (stays _ _ le scanned)
  | ended l rest junk hline le htext hscan =>
    have hl := hline.clean
    have hu := hline.unread
    obtain ⟨state, hrules⟩ := (hu ▸ h).rules_eq_none hl
    obtain ⟨out, hdone, left⟩ := round_refusedLine hok state hline htext hscan hrules
    have hindex := left.index
    refine ⟨out, hdone, ?_, left.state.trans state.symm, by omega, fun hbad => ?_, left.refused, left.ok,
      left.cap_eq, fun v => ?_⟩
    · rw [if_neg (by rw [hu]; exact not_unended_ended hl rest)]
      exact left.ret
    · rw [hu] at hbad
      exact absurd hbad (not_malformed_ended hl rest)
    · rw [left.cutEnd_eq, hu, List.append_assoc]
      exact (cutEnd_ended hl _).symm

end HttpRequest

end Knpnl.Http
