import Knpnl.Http.HeadRounds
import Knpnl.Base.BufferFifo
import Knpnl.Lib.Feed

/-!
# Segmentation of a request head

While the head is open, the parser's saved state and the unread bytes determine what the reference
makes of the stream, whatever follows. One call of `processRead` keeps this or reaches the
reference's verdict. So where a stream is cut into chunks, each appended to one buffer and followed
by a call, the outcome of the first call that decides the head is the reference's on the whole
stream, and so are the fields and the consumed bytes in it.
-/
namespace Knpnl.Http

open Lib.CString Lib.Feed
open Base (FixedBuffer)

namespace HttpRequest

/-- A new request and a new buffer, before any call. -/
def Called.start (mem : Bytes) : Called := ⟨some .NO_REQUEST, {}, .fresh mem⟩

/-- A chunk appended to the buffer, and `processRead` called. -/
def Called.receive (s : Called) (chunk : Bytes) : Called :=
  processRead s.req (s.buf.append chunk).buf

def Called.Accepts (s : Called) (chunk : Bytes) : Prop := (s.buf.append chunk).ret = chunk.length

instance (s : Called) (chunk : Bytes) : Decidable (s.Accepts chunk) :=
  inferInstanceAs (Decidable (_ = _))

/-- What a call that has consumed `n` bytes of the stream in all says about the head. -/
def Called.headOutcome (out : Called) (n : Nat) : HeadOutcome :=
  match out.req.mCheckState with
  | .CHECK_STATE_BODY => .body out.req.toHead n
  | .CHECK_STATE_SUCCESS =>
      if out.req.contentLength = 0 then .complete out.req.toHead n else .body out.req.toHead n
  | .CHECK_STATE_REQUEST | .CHECK_STATE_HEADER =>
      if out.ret = some .BAD_REQUEST then .rejected else .incomplete

end HttpRequest

open HttpRequest (Called processRead)

/-- What a call does on unread bytes `u`, next to what the reference makes of them. -/
inductive ReadHead (req : HttpRequest) (u : Bytes) (cap : Nat) (out : HttpRequest.Called) : Prop
  | waiting (k : Nat) (hk : k ≤ u.length)
      (ret : out.ret = some .NO_REQUEST)
      (inHead : InHead out.req (u.drop k))
      (ok : out.buf.Ok) (cap_eq : out.buf.cap = cap) (unread : out.buf.unread = u.drop k)
      (body : out.req.body = req.body)
      (res : ∀ n v, resume cstr req.mCheckState req.toHead n (u ++ v) =
        resume cstr out.req.mCheckState out.req.toHead (n + k) (u.drop k ++ v))
      (undecided : ∀ n, resume cstr out.req.mCheckState out.req.toHead n (u.drop k) = .incomplete)
  | rejected (ret : out.ret = some .BAD_REQUEST)
      (phase : out.req.mCheckState = .CHECK_STATE_REQUEST ∨ out.req.mCheckState = .CHECK_STATE_HEADER)
      (res : ∀ n v, resume cstr req.mCheckState req.toHead n (u ++ v) = .rejected)
  | complete (k : Nat) (hk : k ≤ u.length)
      (ret : out.ret = some .GET_REQUEST)
      (state : out.req.mCheckState = .CHECK_STATE_SUCCESS)
      (noBody : out.req.contentLength = 0)
      (ok : out.buf.Ok) (cap_eq : out.buf.cap = cap) (unread : out.buf.unread = u.drop k)
      (body : out.req.body = req.body)
      (res : ∀ n v, resume cstr req.mCheckState req.toHead n (u ++ v) =
        .complete out.req.toHead (n + k))
  | body (req₁ : HttpRequest) (buf₁ : FixedBuffer) (k : Nat) (hk : k ≤ u.length)
      (again : out = HttpRequest.processRead req₁ buf₁)
      (state : req₁.mCheckState = .CHECK_STATE_BODY) (index : req₁.mCheckIndex = 0)
      (hasBody : req₁.contentLength ≠ 0)
      (ok : buf₁.Ok) (cap_eq : buf₁.cap = cap) (unread : buf₁.unread = u.drop k)
      (body : req₁.body = req.body)
      (res : ∀ n v, resume cstr req.mCheckState req.toHead n (u ++ v) = .body req₁.toHead (n + k))

/-- A call that begins with a line of `k₀` bytes is the line and then the rest. -/
theorem ReadHead.after_line {req : HttpRequest} (req' : HttpRequest) {u : Bytes} {cap : Nat}
    {out : HttpRequest.Called} (k₀ : Nat) (hk₀ : k₀ ≤ u.length) (hbody : req'.body = req.body)
    (hres : ∀ n v, resume cstr req.mCheckState req.toHead n (u ++ v) =
      resume cstr req'.mCheckState req'.toHead (n + k₀) (u.drop k₀ ++ v))
    (h : ReadHead req' (u.drop k₀) cap out) : ReadHead req u cap out := by
  have hlen : (u.drop k₀).length = u.length - k₀ := List.length_drop
  cases h with
  | waiting k hk ret inHead ok cap_eq unread body res undecided =>
    rw [List.drop_drop] at inHead unread undecided
    refine .waiting (k₀ + k) (by omega) ret inHead ok cap_eq unread (body.trans hbody) ?_ undecided
    intro n v
    rw [hres, res, List.drop_drop, Nat.add_assoc]
  | rejected ret phase res => exact .rejected ret phase fun n v => by rw [hres, res]
  | complete k hk ret state noBody ok cap_eq unread body res =>
    rw [List.drop_drop] at unread
    refine .complete (k₀ + k) (by omega) ret state noBody ok cap_eq unread (body.trans hbody) ?_
    intro n v
    rw [hres, res, Nat.add_assoc]
  | body req₁ buf₁ k hk again state index hasBody ok cap_eq unread body res =>
    rw [List.drop_drop] at unread
    refine .body req₁ buf₁ (k₀ + k) (by omega) again state index hasBody ok cap_eq unread
      (body.trans hbody) ?_
    intro n v
    rw [hres, res, Nat.add_assoc]

/-- A scan that completes no line leaves everything unread. -/
theorem ReadHead.unfinished {req : HttpRequest} {buf : FixedBuffer} {i : Nat} (line : LINE_STATE)
    (hok : buf.Ok) (hin : InHead req buf.unread) (hi : Scanned i buf.unread)
    (hres : ∀ n, resume cstr req.mCheckState req.toHead n buf.unread = .incomplete) :
    ReadHead req buf.unread buf.cap
      ⟨some .NO_REQUEST, { req with mCheckIndex := i, mLineState := line }, buf⟩ :=
  .waiting 0 (Nat.zero_le _) rfl ⟨hi, hin.phase⟩ hok rfl rfl rfl (fun _ _ => rfl) hres

namespace HttpRequest

/-- One call of `processRead` while the head is open does what the reference does. -/
theorem processRead_head (req : HttpRequest) (buf : FixedBuffer) (hok : buf.Ok)
    (hin : InHead req buf.unread) : ReadHead req buf.unread buf.cap (processRead req buf) := by
  induction hm : buf.unread.length using Nat.strongRecOn generalizing req buf with
  | _ m ih =>
  by_cases h0 : buf.used = 0
  · have hnil := hok.unread_eq_nil h0
    have hscan := ReadHead.unfinished req.mLineState hok hin hin.toScanned fun n => by
      rw [hnil]
      exact resume_unended clean_nil
    rw [processRead_empty h0]
    exact hscan
  have hpos : 0 < buf.used := by omega
  -- a completed line that leaves the head open: the rest is shorter
  have next : ∀ {l rest req' buf'}, LineOf buf l rest → Consumed buf buf' rest →
      round req buf = .again req' buf' →
      (req'.mCheckState = .CHECK_STATE_REQUEST ∨ req'.mCheckState = .CHECK_STATE_HEADER) →
      req'.mCheckIndex = 0 → req'.body = req.body →
      (∀ n v, resume cstr req.mCheckState req.toHead n (buf.unread ++ v) =
        resume cstr req'.mCheckState req'.toHead (n + (l.length + 2)) (rest ++ v)) →
      ReadHead req buf.unread buf.cap (processRead req buf) := by
    intro l rest req' buf' line consumed hagain hphase hidx hsame hres
    obtain ⟨hlen, hdrop⟩ := line.drop
    rw [processRead_again hpos hagain]
    have hin' : InHead req' buf'.unread := ⟨by rw [hidx]; exact .zero _, hphase⟩
    have hrec := ih rest.length (by omega) req' buf' consumed.ok hin' (by rw [consumed.unread])
    rw [consumed.unread, consumed.cap_eq, ← hdrop] at hrec
    exact hrec.after_line req' (l.length + 2) (by omega) hsame (by rwa [hdrop])
  have hway := headRound hok hin
  generalize hround : round req buf = o at hway
  cases hway with
  | unended line i scanned open_ =>
    rw [processRead_done hpos hround]
    exact ReadHead.unfinished line hok hin scanned fun n => resume_unendedLine open_ _ _ _
  | malformed i scanned bad =>
    rw [processRead_done hpos hround]
    exact .rejected rfl hin.phase fun n v => resume_malformed (bad.append v) _ _ _
  | refused l rest line state rules out left =>
    rw [processRead_done hpos hround]
    refine .rejected left.ret (Or.inl left.state) fun n v => ?_
    rw [state, line.append_eq, resume_request line.clean, rules]
  | accepted l rest line state method url version rules buf' consumed =>
    refine next line consumed hround (Or.inr rfl) rfl rfl fun n v => ?_
    rw [state, line.append_eq, resume_request line.clean, rules]
  | field l rest line state text buf' consumed =>
    refine next line consumed hround (Or.inr state) rfl rfl fun n v => ?_
    rw [state, line.append_eq, resume_header line.clean, if_neg text]
  | complete l rest line state empty noBody buf' consumed =>
    obtain ⟨hlen, hdrop⟩ := line.drop
    rw [processRead_done hpos hround]
    refine .complete (l.length + 2) (by omega) rfl rfl noBody consumed.ok consumed.cap_eq
      (consumed.unread.trans hdrop.symm) rfl fun n v => ?_
    rw [state, line.append_eq, resume_header line.clean, if_pos empty, if_neg (not_not.mpr noBody)]
  | body l rest line state empty hasBody buf' consumed =>
    obtain ⟨hlen, hdrop⟩ := line.drop
    rw [processRead_again hpos hround]
    refine .body _ buf' (l.length + 2) (by omega) rfl rfl rfl hasBody consumed.ok consumed.cap_eq
      (consumed.unread.trans hdrop.symm) rfl fun n v => ?_
    rw [state, line.append_eq, resume_header line.clean, if_pos empty, if_pos hasBody]

end HttpRequest

namespace HttpRequest

theorem parseContent_head (req : HttpRequest) (text : Bytes) :
    (parseContent req text).2.toHead = req.toHead := by
  simp only [parseContent]
  repeat' split
  all_goals rfl

theorem parseContent_phase {req : HttpRequest} (text : Bytes)
    (h : req.mCheckState = .CHECK_STATE_BODY) :
    (parseContent req text).2.mCheckState = .CHECK_STATE_BODY ∨
      (parseContent req text).2.mCheckState = .CHECK_STATE_SUCCESS := by
  simp only [parseContent]
  repeat' split
  all_goals simp [h]

/-- In the body phase a round is the whole call. -/
theorem round_body {req : HttpRequest} (buf : FixedBuffer) (h : req.mCheckState = .CHECK_STATE_BODY) :
    round req buf = .done
      (let (line, i, text) := parseLine buf.text buf.used req.mCheckIndex
       let scanned := { req with mCheckIndex := i, mLineState := line }
       if line = .LINE_BAD then ⟨some .BAD_REQUEST, scanned, buf.setText text⟩
       else
        let r := parseContent scanned (buf.setText text).text
        ⟨r.1, r.2, buf.setText text⟩) := by
  unfold round
  rcases parseLine buf.text buf.used req.mCheckIndex with ⟨line, i, text⟩
  cases line <;> simp [h, dispatch]

/-- A call in the body phase consumes nothing and leaves the fields of the head. -/
theorem processRead_body_frame {req : HttpRequest} (buf : FixedBuffer)
    (h : req.mCheckState = .CHECK_STATE_BODY) :
    (processRead req buf).req.toHead = req.toHead ∧ (processRead req buf).buf.used = buf.used ∧
      ((processRead req buf).req.mCheckState = .CHECK_STATE_BODY ∨
        (processRead req buf).req.mCheckState = .CHECK_STATE_SUCCESS) := by
  by_cases h0 : buf.used = 0
  · have hsame : processRead req buf = ⟨some .NO_REQUEST, req, buf⟩ := processRead_empty h0
    rw [hsame]
    exact ⟨rfl, rfl, Or.inl h⟩
  · rw [processRead_done (by omega) (round_body buf h)]
    rcases parseLine buf.text buf.used req.mCheckIndex with ⟨line, i, text⟩
    by_cases hbad : line = .LINE_BAD
    · simp only [hbad, ↓reduceIte, true_and]
      exact ⟨rfl, Or.inl h⟩
    · simp only [hbad, ↓reduceIte]
      exact ⟨parseContent_head _ _, rfl, parseContent_phase _ h⟩

end HttpRequest

/-- After the bytes `seen`, of which `n` are consumed, the head is still open. -/
structure OpenHead (cap : Nat) (s : Called) (n : Nat) (seen : Bytes) : Prop where
  ok : s.buf.Ok
  cap_eq : s.buf.cap = cap
  consumed_le : n ≤ seen.length
  unread : s.buf.unread = seen.drop n
  inHead : InHead s.req s.buf.unread
  body : s.req.body = []
  reference : ∀ v, referenceHead cstr (seen ++ v) =
    resume cstr s.req.mCheckState s.req.toHead n (s.buf.unread ++ v)
  incomplete : referenceHead cstr seen = .incomplete

/-- What a call leaves after the bytes `seen`, the head having been open before it. -/
inductive HeadCall (cap : Nat) (seen : Bytes) (out : Called) : Prop
  | waiting (n : Nat) (ret : out.ret = some .NO_REQUEST) (next : OpenHead cap out n seen)
  | rejected (ret : out.ret = some .BAD_REQUEST)
      (phase : out.req.mCheckState = .CHECK_STATE_REQUEST ∨ out.req.mCheckState = .CHECK_STATE_HEADER)
      (reference : ∀ v, referenceHead cstr (seen ++ v) = .rejected)
  | complete (n : Nat) (hn : n ≤ seen.length) (ret : out.ret = some .GET_REQUEST)
      (state : out.req.mCheckState = .CHECK_STATE_SUCCESS) (noBody : out.req.contentLength = 0)
      (ok : out.buf.Ok) (cap_eq : out.buf.cap = cap) (unread : out.buf.unread = seen.drop n)
      (body : out.req.body = [])
      (reference : ∀ v, referenceHead cstr (seen ++ v) = .complete out.req.toHead n)
  | body (req₁ : HttpRequest) (buf₁ : FixedBuffer) (n : Nat) (hn : n ≤ seen.length)
      (again : out = processRead req₁ buf₁)
      (state : req₁.mCheckState = .CHECK_STATE_BODY) (index : req₁.mCheckIndex = 0)
      (hasBody : req₁.contentLength ≠ 0)
      (ok : buf₁.Ok) (cap_eq : buf₁.cap = cap) (unread : buf₁.unread = seen.drop n)
      (body : req₁.body = [])
      (reference : ∀ v, referenceHead cstr (seen ++ v) = .body req₁.toHead n)

theorem referenceHead_eq_resume (stream : Bytes) :
    referenceHead cstr stream = resume cstr .CHECK_STATE_REQUEST {} 0 stream := rfl

/-- What the reference says whatever follows, it says of the bytes alone. -/
theorem referenceHead_now {seen : Bytes} {o : HeadOutcome}
    (h : ∀ v, referenceHead cstr (seen ++ v) = o) : referenceHead cstr seen = o := by
  simpa using h []

theorem openHead_start {mem : Bytes} (h : mem.length < 2 ^ 31) :
    OpenHead mem.length (.start mem) 0 [] := by
  have hunread : (Called.start mem).buf.unread = [] := FixedBuffer.unread_fresh h
  refine ⟨FixedBuffer.fresh_ok h, rfl, le_rfl, hunread, ⟨.zero _, Or.inl rfl⟩, rfl, ?_, ?_⟩
  · intro v
    rw [hunread]
    rfl
  · rw [referenceHead_eq_resume]
    exact resume_unended clean_nil

namespace OpenHead

variable {cap n : Nat} {s : Called} {seen c : Bytes}

theorem used_le (h : OpenHead cap s n seen) : s.buf.used ≤ seen.length := by
  rw [← h.ok.unread_length, h.unread, List.length_drop]
  omega

/-- What fits the buffer with everything seen before is accepted. -/
theorem accepts (h : OpenHead cap s n seen) (hfit : seen.length + c.length ≤ cap) : s.Accepts c := by
  have hused := h.used_le
  exact ((h.ok.append c).accepts (by rw [h.cap_eq]; omega)).1

theorem receive (h : OpenHead cap s n seen) (hc : s.Accepts c) :
    HeadCall cap (seen ++ c) (s.receive c) := by
  have happ := h.ok.append c
  have hunread : (s.buf.append c).buf.unread = (seen ++ c).drop n := by
    rw [happ.unread_of_ret hc, h.unread, List.drop_append_of_le_length h.consumed_le]
  have hread := HttpRequest.processRead_head s.req (s.buf.append c).buf happ.ok
    (by rw [happ.unread_of_ret hc]; exact h.inHead.append c)
  have hcalled : s.receive c = processRead s.req (s.buf.append c).buf := rfl
  rw [← hcalled] at hread
  have href : ∀ v, referenceHead cstr (seen ++ c ++ v) = resume cstr s.req.mCheckState s.req.toHead n
      ((s.buf.append c).buf.unread ++ v) := by
    intro v
    rw [List.append_assoc, h.reference, happ.unread_of_ret hc, List.append_assoc]
  have hcap := happ.cap.trans h.cap_eq
  have hle : ∀ k ≤ (s.buf.append c).buf.unread.length, n + k ≤ (seen ++ c).length := by
    intro k hk
    have := h.consumed_le
    rw [hunread, List.length_drop] at hk
    rw [List.length_append] at hk ⊢
    omega
  have hdrop : ∀ k, (s.buf.append c).buf.unread.drop k = (seen ++ c).drop (n + k) := by
    intro k
    rw [hunread, List.drop_drop]
  cases hread with
  | waiting k hk ret inHead ok cap_eq unread body res undecided =>
    refine .waiting (n + k) ret ⟨ok, cap_eq.trans hcap, hle k hk, unread.trans (hdrop k),
      by rwa [unread], body.trans h.body, ?_, ?_⟩
    · intro v
      rw [href, res, unread]
    · have := href []
      rwa [res, List.append_nil, List.append_nil, undecided] at this
  | rejected ret phase res => exact .rejected ret phase fun v => by rw [href, res]
  | complete k hk ret state noBody ok cap_eq unread body res =>
    exact .complete (n + k) (hle k hk) ret state noBody ok (cap_eq.trans hcap) (unread.trans (hdrop k))
      (body.trans h.body) fun v => by rw [href, res]
  | body req₁ buf₁ k hk again state index hasBody ok cap_eq unread body res =>
    exact .body req₁ buf₁ (n + k) (hle k hk) again state index hasBody ok (cap_eq.trans hcap)
      (unread.trans (hdrop k)) (body.trans h.body) fun v => by rw [href, res]

end OpenHead

/-- A proper prefix of a complete head is incomplete. -/
theorem referenceHead_proper {head pre : Bytes} {f : Head}
    (hdone : referenceHead cstr head = .complete f head.length) (hpre : pre <+: head)
    (hlt : pre.length < head.length) : referenceHead cstr pre = .incomplete := by
  by_contra hne
  obtain ⟨v, rfl⟩ := hpre
  rw [referenceHead_append hne] at hdone
  obtain ⟨hle, _⟩ := referenceHead_take hdone
  omega

/-- The last call, the number of bytes delivered, and the outcome of the first call
that decided the head. -/
structure HeadRun where
  last : Called
  delivered : Nat
  outcome : HeadOutcome

namespace HeadRun

def start (mem : Bytes) : HeadRun := ⟨.start mem, 0, .incomplete⟩

/-- The bytes consumed are those delivered and no longer in the buffer. -/
def step (s : HeadRun) (chunk : Bytes) : HeadRun :=
  let out := s.last.receive chunk
  let delivered := s.delivered + chunk.length
  { last := out
    delivered
    outcome :=
      if s.outcome = .incomplete then out.headOutcome (delivered - out.buf.used) else s.outcome }

def Accepts (s : HeadRun) (chunk : Bytes) : Prop := s.last.Accepts chunk

instance (s : HeadRun) (chunk : Bytes) : Decidable (s.Accepts chunk) :=
  inferInstanceAs (Decidable (s.last.Accepts chunk))

/-- What holds of a run after the bytes `seen`. -/
inductive Inv (cap : Nat) (s : HeadRun) (seen : Bytes) : Prop
  | undecided (n : Nat) (outcome : s.outcome = .incomplete) (delivered : s.delivered = seen.length)
      (openHead : OpenHead cap s.last n seen)
  | decided (outcome : s.outcome ≠ .incomplete)
      (reference : ∀ v, referenceHead cstr (seen ++ v) = s.outcome)

variable {cap : Nat} {s : HeadRun} {seen : Bytes}

theorem Inv.outcome_eq (h : Inv cap s seen) : s.outcome = referenceHead cstr seen := by
  cases h with
  | undecided n outcome delivered openHead => rw [outcome, openHead.incomplete]
  | decided outcome reference => exact (referenceHead_now reference).symm

/-- A call that decides the head records the reference's outcome. -/
private theorem inv_decided {o : HeadOutcome} {c : Bytes} (houtcome : (s.step c).outcome = o)
    (hne : o ≠ .incomplete) (href : ∀ v, referenceHead cstr (seen ++ c ++ v) = o) :
    Inv cap (s.step c) (seen ++ c) :=
  .decided (by rw [houtcome]; exact hne) fun v => by rw [href, houtcome]

/-- One more chunk. -/
theorem Inv.step (h : Inv cap s seen) {c : Bytes} (hc : s.Accepts c) :
    Inv cap (s.step c) (seen ++ c) := by
  cases h with
  | decided outcome reference =>
    have hout : (s.step c).outcome = s.outcome := by simp [HeadRun.step, outcome]
    exact .decided (by rw [hout]; exact outcome) fun v => by rw [List.append_assoc, reference, hout]
  | undecided m outcome delivered openHead =>
    have hdelivered : (s.step c).delivered = (seen ++ c).length := by
      simp [HeadRun.step, delivered]
    have hout : (s.step c).outcome =
        (s.last.receive c).headOutcome ((seen ++ c).length - (s.last.receive c).buf.used) := by
      simp [HeadRun.step, outcome, delivered]
    cases openHead.receive hc with
    | waiting n ret next =>
      refine .undecided n ?_ hdelivered next
      rw [hout, Called.headOutcome]
      rcases next.inHead.phase with h | h <;> simp [h, ret]
    | rejected ret phase reference =>
      refine inv_decided ?_ (by simp) reference
      rw [hout, Called.headOutcome]
      rcases phase with h | h <;> simp [h, ret]
    | complete n hn ret state noBody ok cap_eq unread body reference =>
      have hleft : (seen ++ c).length - (s.last.receive c).buf.used = n := by
        rw [← ok.unread_length, unread, List.length_drop]
        omega
      refine inv_decided ?_ (by simp) reference
      rw [hout, Called.headOutcome, hleft]
      simp [state, noBody]
    | body req₁ buf₁ n hn again state index hasBody ok cap_eq unread body reference =>
      obtain ⟨hhead, hsame, hphase⟩ := HttpRequest.processRead_body_frame buf₁ state
      rw [← again] at hhead hsame hphase
      have hleft : (seen ++ c).length - (s.last.receive c).buf.used = n := by
        rw [hsame, ← ok.unread_length, unread, List.length_drop]
        omega
      refine inv_decided ?_ (by simp) reference
      rw [hout, Called.headOutcome, hleft]
      rcases hphase with h | h <;> simp [h, hasBody, hhead]

theorem inv_run {mem : Bytes} (h : mem.length < 2 ^ 31) (chunks : List Bytes)
    (hfeed : Feeds step Accepts (start mem) chunks) :
    Inv mem.length (feed step (start mem) chunks) chunks.flatten := by
  have hstart : Inv mem.length (start mem) [] := .undecided 0 rfl rfl (openHead_start h)
  simpa using hfeed.invariant (I := Inv mem.length) (fun s seen c hs hc => hs.step hc) hstart

/-- The outcome of a run is the reference's, with lines read as C strings. -/
theorem outcome_cstr {mem : Bytes} (h : mem.length < 2 ^ 31) {chunks : List Bytes}
    (hfeed : Feeds step Accepts (start mem) chunks) :
    (feed step (start mem) chunks).outcome = referenceHead cstr chunks.flatten :=
  (inv_run h chunks hfeed).outcome_eq

end HeadRun

/-- However a stream without NUL is cut, as long as the buffer takes each chunk, the run
ends with the outcome, the fields and the consumed bytes of the reference. -/
theorem head_segmentation (mem : Bytes) (hmem : mem.length < 2 ^ 31) (chunks : List Bytes)
    (hnul : 0 ∉ chunks.flatten)
    (hfeed : Feeds HeadRun.step HeadRun.Accepts (.start mem) chunks) :
    (feed HeadRun.step (.start mem) chunks).outcome = referenceHead id chunks.flatten := by
  rw [HeadRun.outcome_cstr hmem hfeed, referenceHead_view hnul]

/-- A cut between CR and LF, one inside a header name, and a byte after the head. -/
theorem head_segmentation_cut :
    (feed HeadRun.step (.start (List.replicate 64 7))
      [ascii "GET /a HTTP/1.1\r", ascii "\nHo", ascii "st: h\r\n\r\nx"]).outcome =
      .complete { method := some .GET, url := ascii "/a", version := ascii "HTTP/1.1", host := ascii "h" }
        28 :=
  (head_segmentation (List.replicate 64 7) (by decide)
    [ascii "GET /a HTTP/1.1\r", ascii "\nHo", ascii "st: h\r\n\r\nx"] (by decide)
    (by decide +kernel)).trans (by decide +kernel)

end Knpnl.Http
