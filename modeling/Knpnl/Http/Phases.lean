import Knpnl.Http.Rounds

/-!
# The phases of a parser

After the bytes of a stream that have been appended so far, a new parser is in one of four
phases, and each says what the reference makes of the stream, whatever follows. A round takes the
parser from one phase to another, and so does the arrival of more bytes.
-/
namespace Knpnl.Http

open Lib.CString Lib.Feed
open Base (FixedBuffer)
open HttpRequest (Called Round round rounds processRead)

/-- The ways a round goes in a state for which the `switch` has no case. -/
inductive SuccessRound (r : HttpRequest) (b : FixedBuffer) : Round → Prop where
  | unended (line : LINE_STATE) (i : Nat) (scanned : Scanned i b.unread) (open_ : Unended b.unread) :
      SuccessRound r b (.done ⟨some .NO_REQUEST, r.scanned i line, b⟩)
  | malformed (i : Nat) (scanned : Scanned i b.unread) (bad : Malformed b.unread) :
      SuccessRound r b (.done ⟨some .BAD_REQUEST, r.scanned i .LINE_BAD, b⟩)
  | ended (i : Nat) (b' : FixedBuffer) (scanned : Scanned i b'.unread) (ok : b'.Ok)
      (cap_eq : b'.cap = b.cap) (size : b'.unread.length = b.unread.length)
      (cutEnd_eq : ∀ v, cutEnd (b'.unread ++ v) = cutEnd (b.unread ++ v)) :
      SuccessRound r b (.again (r.scanned i .LINE_OK) b')

namespace HttpRequest

theorem successRound {r : HttpRequest} {b : FixedBuffer} (hok : b.Ok)
    (hst : r.mCheckState = .CHECK_STATE_SUCCESS) (hscanned : Scanned r.mCheckIndex b.unread) :
    SuccessRound r b (round r b) := by
  have hbody : r.mCheckState ≠ .CHECK_STATE_BODY := by simp [hst]
  cases scanEnd hok hscanned with
  | unended line incomplete open_ scanned _ hscan =>
    rw [round_of_scan hbody hscan incomplete.1, if_neg incomplete.2]
    exact .unended line _ scanned open_
  | malformed i bad scanned _ hscan =>
    rw [round_of_scan hbody hscan (by simp)]
    exact .malformed i scanned bad
  | ended l rest junk hline _ htext hscan =>
    have hover := endOverwritten hok hline htext
    have hround : round r b = .again (r.scanned (l.length + 2) .LINE_OK)
        (b.setText (l ++ 0 :: 0 :: (rest ++ junk))) := by
      rw [round_ended hscan]
      exact dispatch_success (r.scanned _ _) _ hst
    rw [hround]
    exact .ended _ _ hover.scanned hover.ok rfl hover.size hover.cutEnd_eq

end HttpRequest

/-- The line at the offset `n` is the request line, or it follows a CR LF. -/
def LineStart (stream : Bytes) (n : Nat) (st : CHECK_STATE) : Prop :=
  if st = .CHECK_STATE_REQUEST then n = 0 else ∃ p, stream.take n = p ++ [CR, LF]

/-- The lines consumed before a head is over: none, or a request line and header lines. -/
def HeadLines (st : CHECK_STATE) (done : List Bytes) : Prop :=
  if st = .CHECK_STATE_REQUEST then done = []
  else ∃ l ls, done = l :: ls ∧ requestRules (cstr l) ≠ none ∧ ∀ m ∈ ls, cstr m ≠ []

/-- Where a refusal shows in the bytes of the stream: in a line end that is malformed, or in a
request line whose end has been overwritten. -/
def RefusedAt (stream : Bytes) (r : HttpRequest) (b : FixedBuffer) : Prop :=
  (Malformed b.unread ∧ ∃ n ≤ stream.length, b.unread = stream.drop n) ∨
    r.mCheckState = .CHECK_STATE_REQUEST ∧ ¬ Clean (stream.take r.mCheckIndex)

/-- The head is open, `n` bytes of it and the lines `done` having been consumed. -/
structure OpenAt (stream : Bytes) (r : HttpRequest) (b : FixedBuffer) (n : Nat) (done : List Bytes) : Prop
    extends InHead r b.unread where
  le : n ≤ stream.length
  start : LineStart stream n r.mCheckState
  unread : b.unread = stream.drop n
  lines : HeadLines r.mCheckState done
  cut : ∀ v, (cutLines [] (stream ++ v)).1 = done ++ (cutLines [] (b.unread ++ v)).1
  reference : ∀ v, referenceHead cstr (stream ++ v) =
    resume cstr r.mCheckState r.toHead n (b.unread ++ v)

/-- The head has ended after `n` bytes, and the bytes that follow it are kept for the body. -/
structure BodyAt (stream : Bytes) (r : HttpRequest) (b : FixedBuffer) (n : Nat) : Prop
    extends InBody r b.unread where
  le : n ≤ stream.length
  size : b.unread.length = stream.length - n
  kept : (∃ v, Malformed (stream.drop n ++ v)) ∨ r.mCheckIndex = 0 → b.unread = stream.drop n
  reference : ∀ v, referenceHead cstr (stream ++ v) = .body r.toHead n

/-- Where a parser is after the bytes `stream`. -/
inductive Phase (stream : Bytes) (r : HttpRequest) (b : FixedBuffer) : Prop where
  | head (n : Nat) (done : List Bytes) (openAt : OpenAt stream r b n done)
  | refused (refused : Refused r b.unread) (refusedAt : RefusedAt stream r b)
      (reference : ∀ v, referenceHead cstr (stream ++ v) = .rejected)
  | body (n : Nat) (bodyAt : BodyAt stream r b n)
  | success (state : r.mCheckState = .CHECK_STATE_SUCCESS) (scanned : Scanned r.mCheckIndex b.unread)
      (reference : (∃ n, ∀ v, referenceHead cstr (stream ++ v) = .complete r.toHead n) ∨
        ∃ n < stream.length, ∀ v, referenceHead cstr (stream ++ v) = .body r.toHead n)

/-- A parser in one of the phases, with a buffer whose pointers are in order. -/
structure Parsing (cap : Nat) (stream : Bytes) (r : HttpRequest) (b : FixedBuffer) : Prop where
  ok : b.Ok
  cap_eq : b.cap = cap
  phase : Phase stream r b

section
variable {cap n : Nat} {stream : Bytes} {r : HttpRequest} {b b' : FixedBuffer} {done : List Bytes}
  {l rest : Bytes}

namespace OpenAt

/-- The line that begins where the consumed bytes end. -/
theorem next (h : OpenAt stream r b n done) (line : LineOf b l rest) :
    n + (l.length + 2) ≤ stream.length ∧
      stream.take (n + (l.length + 2)) = (stream.take n ++ l) ++ [CR, LF] ∧
      rest = stream.drop (n + (l.length + 2)) := by
  have hdrop : stream.drop n = l ++ CR :: LF :: rest := h.unread ▸ line.unread
  have hlen := congrArg List.length hdrop
  simp only [List.length_drop, List.length_append, List.length_cons] at hlen
  have hsplit : l ++ CR :: LF :: rest = (l ++ [CR, LF]) ++ rest := by simp
  have hsize : l.length + 2 = (l ++ [CR, LF]).length := by simp
  refine ⟨by omega, ?_, ?_⟩
  · rw [List.take_add, hdrop, hsplit, hsize, List.take_left, List.append_assoc]
  · rw [← List.drop_drop, hdrop, hsplit, hsize, List.drop_left]

theorem accepted (h : OpenAt stream r b n done) (line : LineOf b l rest)
    (state : r.mCheckState = .CHECK_STATE_REQUEST) {method : METHOD} {url version : Bytes}
    (rules : requestRules (cstr l) = some (method, url, version)) (consumed : Consumed b b' rest) :
    OpenAt stream
      { r with
        method := some method, url, version, mCheckState := .CHECK_STATE_HEADER
        mCheckIndex := 0, mLineState := .LINE_OK } b' (n + (l.length + 2)) [l] := by
  obtain ⟨hle, htake, hrest⟩ := h.next line
  refine ⟨⟨.zero _, Or.inr rfl⟩, hle, ⟨stream.take n ++ l, htake⟩, consumed.unread.trans hrest, ?_, ?_, ?_⟩
  · exact ⟨l, [], rfl, by simp [rules], by simp⟩
  · intro v
    have lines := h.lines
    rw [state] at lines
    obtain rfl : done = [] := lines
    rw [h.cut, line.append_eq, cutLines_ended line.clean, consumed.unread]
    rfl
  · intro v
    rw [h.reference, line.append_eq, state, resume_request line.clean, rules, consumed.unread]

theorem field (h : OpenAt stream r b n done) (line : LineOf b l rest)
    (state : r.mCheckState = .CHECK_STATE_HEADER) (text : cstr l ≠ []) (consumed : Consumed b b' rest) :
    OpenAt stream
      { r with toHead := headerRules r.toHead (cstr l), mCheckIndex := 0, mLineState := .LINE_OK } b'
      (n + (l.length + 2)) (done ++ [l]) := by
  obtain ⟨hle, htake, hrest⟩ := h.next line
  refine ⟨⟨.zero _, Or.inr state⟩, hle, ?_, consumed.unread.trans hrest, ?_, ?_, ?_⟩
  · show LineStart _ _ r.mCheckState
    rw [state]
    exact ⟨stream.take n ++ l, htake⟩
  · have lines := h.lines
    show HeadLines r.mCheckState _
    rw [state] at lines ⊢
    obtain ⟨l₀, ls, rfl, rules, hls⟩ := lines
    refine ⟨l₀, ls ++ [l], rfl, rules, fun m hm => ?_⟩
    rcases List.mem_append.mp hm with hm | hm
    · exact hls m hm
    · rw [List.mem_singleton.mp hm]
      exact text
  · intro v
    rw [h.cut, line.append_eq, cutLines_ended line.clean, consumed.unread, List.append_assoc]
    rfl
  · intro v
    show _ = resume cstr r.mCheckState _ _ _
    rw [h.reference, line.append_eq, state, resume_header line.clean, if_neg text, consumed.unread]

theorem complete (h : OpenAt stream r b n done) (line : LineOf b l rest)
    (state : r.mCheckState = .CHECK_STATE_HEADER) (empty : cstr l = []) (noBody : r.contentLength = 0)
    (v : Bytes) : referenceHead cstr (stream ++ v) = .complete r.toHead (n + (l.length + 2)) := by
  rw [h.reference, line.append_eq, state, resume_header line.clean, if_pos empty,
    if_neg (not_not.mpr noBody)]

theorem body (h : OpenAt stream r b n done) (line : LineOf b l rest)
    (state : r.mCheckState = .CHECK_STATE_HEADER) (empty : cstr l = []) (hasBody : r.contentLength ≠ 0)
    (consumed : Consumed b b' rest) :
    BodyAt stream { r with mCheckState := .CHECK_STATE_BODY, mCheckIndex := 0, mLineState := .LINE_OK } b'
      (n + (l.length + 2)) := by
  obtain ⟨hle, htake, hrest⟩ := h.next line
  have hunread := consumed.unread.trans hrest
  refine ⟨⟨.zero _, rfl⟩, hle, ?_, fun _ => hunread, fun v => ?_⟩
  · rw [hunread, List.length_drop]
  · rw [h.reference, line.append_eq, state, resume_header line.clean, if_pos empty, if_pos hasBody]

theorem append (h : OpenAt stream r b n done) {c : Bytes} (hunread : b'.unread = b.unread ++ c) :
    OpenAt (stream ++ c) r b' n done := by
  refine ⟨by rw [hunread]; exact h.toInHead.append c, ?_, ?_, ?_, h.lines, fun v => ?_, fun v => ?_⟩
  · rw [List.length_append]
    exact Nat.le_add_right_of_le h.le
  · have start := h.start
    unfold LineStart at start ⊢
    rwa [List.take_append_of_le_length h.le]
  · rw [hunread, h.unread, List.drop_append_of_le_length h.le]
  · rw [List.append_assoc, h.cut, hunread, List.append_assoc]
  · rw [List.append_assoc, h.reference, hunread, List.append_assoc]

/-- The phase after a round. -/
theorem round_phase (h : OpenAt stream r b n done) (hok : b.Ok) (hcap : b.cap = cap) :
    match round r b with
    | .again r' b' => Parsing cap stream r' b'
    | .done out => Parsing cap stream out.req out.buf := by
  have hround := HttpRequest.headRound hok h.toInHead
  generalize round r b = o at hround
  cases hround with
  | unended line i scanned open_ =>
    exact ⟨hok, hcap, .head n done { h with toInHead := ⟨scanned, h.phase⟩ }⟩
  | malformed i scanned bad =>
    refine ⟨hok, hcap,
      .refused (.lineEnd h.phase scanned bad) (Or.inl ⟨bad, n, h.le, h.unread⟩) fun v => ?_⟩
    rw [h.reference]
    exact resume_malformed (bad.append v) _ _ _
  | refused l rest line state rules out left =>
    refine ⟨left.ok, left.cap_eq.trans hcap, .refused left.refused (Or.inr ⟨left.state, ?_⟩) fun v => ?_⟩
    · have start := h.start
      rw [state] at start
      obtain rfl : n = 0 := start
      obtain ⟨_, htake, _⟩ := h.next line
      rw [left.index, ← Nat.zero_add (l.length + 2), htake]
      simp
    · rw [h.reference, line.append_eq, state, resume_request line.clean, rules]
  | accepted l rest line state method url version rules b' consumed =>
    exact ⟨consumed.ok, consumed.cap_eq.trans hcap, .head _ _ (h.accepted line state rules consumed)⟩
  | field l rest line state text b' consumed =>
    exact ⟨consumed.ok, consumed.cap_eq.trans hcap, .head _ _ (h.field line state text consumed)⟩
  | complete l rest line state empty noBody b' consumed =>
    exact ⟨consumed.ok, consumed.cap_eq.trans hcap,
      .success rfl (.zero _) (Or.inl ⟨_, h.complete line state empty noBody⟩)⟩
  | body l rest line state empty hasBody b' consumed =>
    exact ⟨consumed.ok, consumed.cap_eq.trans hcap, .body _ (h.body line state empty hasBody consumed)⟩

end OpenAt

namespace BodyAt

/-- The bytes of the body stay in the buffer. -/
theorem scanned (h : BodyAt stream r b n) (line : LINE_STATE) {i : Nat} (hi : Scanned i b'.unread)
    (hle : r.mCheckIndex ≤ i) (hsize : b'.unread.length = b.unread.length)
    (hkept : (∃ v, Malformed (b.unread ++ v)) ∨ i = 0 → b'.unread = b.unread) :
    BodyAt stream (r.scanned i line) b' n := by
  refine ⟨⟨hi, h.phase⟩, h.le, hsize.trans h.size, ?_, h.reference⟩
  rintro (⟨v, hbad⟩ | hzero)
  · have hsame := h.kept (Or.inl ⟨v, hbad⟩)
    rw [← hsame] at hbad ⊢
    exact hkept (Or.inl ⟨v, hbad⟩)
  · have hi : i = 0 := hzero
    rw [hkept (Or.inr hi)]
    exact h.kept (Or.inr (by omega))

theorem append (h : BodyAt stream r b n) {c : Bytes} (hunread : b'.unread = b.unread ++ c) :
    BodyAt (stream ++ c) r b' n := by
  have hle := h.le
  have hdrop : (stream ++ c).drop n = stream.drop n ++ c := List.drop_append_of_le_length hle
  refine ⟨?_, ?_, ?_, fun hkept => ?_, fun v => ?_⟩
  · rw [hunread]
    exact ⟨h.toInBody.toScanned.append c, h.phase⟩
  · rw [List.length_append]
    omega
  · rw [hunread, List.length_append, List.length_append, h.size]
    omega
  · rw [hunread, hdrop, h.kept]
    refine hkept.imp (fun ⟨v, hbad⟩ => ⟨c ++ v, ?_⟩) id
    rwa [hdrop, List.append_assoc] at hbad
  · rw [List.append_assoc, h.reference]

/-- The phase after a round. -/
theorem round_phase (h : BodyAt stream r b n) (hok : b.Ok) (hcap : b.cap = cap) (hpos : 0 < b.used) :
    ∃ out, round r b = .done out ∧ Parsing cap stream out.req out.buf := by
  obtain ⟨out, hdone, hround⟩ := HttpRequest.bodyRound hok h.toInBody
  refine ⟨out, hdone, ?_⟩
  have hlt : n < stream.length := by
    have hsize := h.size
    rw [hok.unread_length] at hsize
    omega
  cases hround with
  | malformed i scanned le bad => exact ⟨hok, hcap, .body n (h.scanned _ scanned le rfl fun _ => rfl)⟩
  | parsed line b' good ok cap_eq size scanned le kept cutEnd_eq =>
    have waits := h.scanned line scanned le size kept
    rcases HttpRequest.parseContent_cases (r.scanned (lineStop b.unread) line) b'.text with
      ⟨_, hcontent⟩ | ⟨_, hcontent⟩ | ⟨_, _, hcontent⟩
    all_goals rw [hcontent]
    · exact ⟨ok, cap_eq.trans hcap, .body n waits⟩
    · exact ⟨ok, cap_eq.trans hcap, .body n waits⟩
    · exact ⟨ok, cap_eq.trans hcap, .success rfl scanned (Or.inr ⟨n, hlt, h.reference⟩)⟩

end BodyAt

/-- The head is open, or it has ended in this call, and nothing of the body has been scanned. -/
inductive Entering (stream : Bytes) (r : HttpRequest) (b : FixedBuffer) : Prop where
  | head (n : Nat) (done : List Bytes) (ok : b.Ok) (openAt : OpenAt stream r b n done)
  | body (n : Nat) (ok : b.Ok) (bodyAt : BodyAt stream r b n) (index : r.mCheckIndex = 0)

theorem Entering.again (h : Entering stream r b) {r' : HttpRequest} (hround : round r b = .again r' b') :
    Entering stream r' b' := by
  cases h with
  | head n done ok openAt =>
    have hway := HttpRequest.headRound ok openAt.toInHead
    rw [hround] at hway
    cases hway with
    | accepted l rest line state method url version rules b' consumed =>
      exact .head _ _ consumed.ok (openAt.accepted line state rules consumed)
    | field l rest line state text b' consumed =>
      exact .head _ _ consumed.ok (openAt.field line state text consumed)
    | body l rest line state empty hasBody b' consumed =>
      exact .body _ consumed.ok (openAt.body line state empty hasBody consumed) rfl
  | body n ok bodyAt index =>
    obtain ⟨out, hdone, _⟩ := HttpRequest.bodyRound ok bodyAt.toInBody
    cases hround.symm.trans hdone

namespace Parsing

/-- A round takes the parser from phase to phase. -/
theorem next (h : Parsing cap stream r b) (hpos : 0 < b.used) :
    match round r b with
    | .again r' b' => Parsing cap stream r' b'
    | .done out => Parsing cap stream out.req out.buf := by
  obtain ⟨hok, hcap, phase⟩ := h
  cases phase with
  | head n done openAt => exact openAt.round_phase hok hcap
  | refused refused refusedAt reference =>
    obtain ⟨out, hdone, left⟩ := HttpRequest.refusedRound hok refused
    rw [hdone]
    refine ⟨left.ok, left.cap_eq.trans hcap, .refused left.refused ?_ reference⟩
    rcases refusedAt with ⟨bad, n, hn, unread⟩ | ⟨state, dirty⟩
    · have hsame := left.kept bad
      exact Or.inl ⟨hsame ▸ bad, n, hn, hsame.trans unread⟩
    · refine Or.inr ⟨left.state.trans state, fun hclean => dirty fun c hc => hclean c ?_⟩
      exact (List.take_prefix_take_left left.le).subset hc
  | body n bodyAt =>
    obtain ⟨out, hdone, hnext⟩ := bodyAt.round_phase hok hcap hpos
    rw [hdone]
    exact hnext
  | success state scanned reference =>
    have hround := HttpRequest.successRound hok state scanned
    generalize round r b = o at hround
    cases hround with
    | unended line i scanned open_ => exact ⟨hok, hcap, .success state scanned reference⟩
    | malformed i scanned bad => exact ⟨hok, hcap, .success state scanned reference⟩
    | ended i b' scanned ok cap_eq size cutEnd_eq =>
      exact ⟨ok, cap_eq.trans hcap, .success state scanned reference⟩

theorem round_again (h : Parsing cap stream r b) {r' : HttpRequest} {b' : FixedBuffer} (hpos : 0 < b.used)
    (hround : round r b = .again r' b') : Parsing cap stream r' b' := by
  have hnext := h.next hpos
  rwa [hround] at hnext

theorem round_done (h : Parsing cap stream r b) {out : Called} (hpos : 0 < b.used)
    (hround : round r b = .done out) : Parsing cap stream out.req out.buf := by
  have hnext := h.next hpos
  rwa [hround] at hnext

/-- A phase holds whenever a round of the call begins. -/
theorem rounds_ending (h : Parsing cap stream r b) :
    (∀ p ∈ rounds r b, Parsing cap stream p.1 p.2) ∧ HttpRequest.Ending (Parsing cap stream) r b :=
  HttpRequest.rounds_invariant r b
    (fun _ _ _ _ hmem hparsing hround => hparsing.round_again (HttpRequest.used_pos_of_mem hmem) hround) h

theorem call (h : Parsing cap stream r b) :
    Parsing cap stream (processRead r b).req (processRead r b).buf := by
  cases h.rounds_ending.2 with
  | drained r b inv empty hout => rwa [hout]
  | returned r b inv pos mem hround => exact inv.round_done pos hround

/-- More bytes of the stream. -/
theorem append (h : Parsing cap stream r b) {c : Bytes} (hc : (b.append c).ret = c.length) :
    Parsing cap (stream ++ c) r (b.append c).buf := by
  obtain ⟨hok, hcap, phase⟩ := h
  have happ := hok.append c
  have hunread := happ.unread_of_ret hc
  refine ⟨happ.ok, happ.cap.trans hcap, ?_⟩
  have hlen : (stream ++ c).length = stream.length + c.length := List.length_append
  cases phase with
  | head n done openAt => exact .head n done (openAt.append hunread)
  | refused refused refusedAt reference =>
    refine .refused (by rw [hunread]; exact refused.append c) ?_ fun v => ?_
    · rcases refusedAt with ⟨bad, n, hn, unread⟩ | ⟨state, dirty⟩
      · refine Or.inl ⟨hunread ▸ bad.append c, n, by omega, ?_⟩
        rw [hunread, unread, List.drop_append_of_le_length hn]
      · refine Or.inr ⟨state, fun hclean => dirty fun d hd => hclean d ?_⟩
        rw [List.take_append]
        exact List.mem_append_left _ hd
    · rw [List.append_assoc, reference]
  | body n bodyAt => exact .body n (bodyAt.append hunread)
  | success state scanned reference =>
    refine .success state (by rw [hunread]; exact scanned.append c) ?_
    rcases reference with ⟨n, reference⟩ | ⟨n, hn, reference⟩
    · exact Or.inl ⟨n, fun v => by rw [List.append_assoc, reference]⟩
    · exact Or.inr ⟨n, by omega, fun v => by rw [List.append_assoc, reference]⟩

theorem start_of_empty {b : FixedBuffer} (hok : b.Ok) (hempty : b.unread = []) : Parsing b.cap [] {} b := by
  refine ⟨hok, rfl, .head 0 [] ⟨⟨.zero _, Or.inl rfl⟩, le_rfl, rfl, hempty, rfl, fun v => ?_, fun v => ?_⟩⟩
  all_goals rw [hempty]
  all_goals rfl

theorem start {mem : Bytes} (h : mem.length < 2 ^ 31) : Parsing mem.length [] {} (.fresh mem) :=
  start_of_empty (FixedBuffer.fresh_ok h) (FixedBuffer.unread_fresh h)

theorem receive {s : Called} (h : Parsing cap stream s.req s.buf) {c : Bytes} (hc : s.Accepts c) :
    Parsing cap (stream ++ c) (s.receive c).req (s.receive c).buf := (h.append hc).call

theorem run {mem : Bytes} (h : mem.length < 2 ^ 31) {chunks : List Bytes}
    (hfeed : Feeds Called.receive Called.Accepts (.start mem) chunks) :
    Parsing mem.length chunks.flatten (feed Called.receive (.start mem) chunks).req
      (feed Called.receive (.start mem) chunks).buf := by
  have hrun := hfeed.invariant (I := fun s stream => Parsing mem.length stream s.req s.buf)
    (fun s stream c hs hc => hs.receive hc) (start h)
  simpa using hrun

end Parsing
end
end Knpnl.Http
