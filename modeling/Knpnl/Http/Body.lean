import Knpnl.Http.Segmentation

/-!
# Bodies that the line scanner lets through

In the body phase `processRead` still scans for lines: a CR LF is overwritten and a
lone CR or LF is refused. A body without CR and LF is returned unchanged by the call
that first sees all of it, and any other body is not, however the bytes are cut.
-/
namespace Knpnl.Http

open Lib.CString Lib.Feed
open Base (FixedBuffer)
open HttpRequest (Called processRead)

namespace HttpRequest

/-- The request once `parseContent` has stored the body. -/
def stored (req : HttpRequest) (i : Nat) (line : LINE_STATE) (body : Bytes) : HttpRequest :=
  { req.scanned i line with body := body, mCheckState := .CHECK_STATE_SUCCESS }

theorem parseContent_short {req : HttpRequest} (text : Bytes)
    (h : (req.mCheckIndex : Int) < req.contentLength) :
    parseContent req text = (some .NO_REQUEST, req) := by
  unfold parseContent
  rw [if_neg (by omega)]

theorem parseContent_full {req : HttpRequest} {body rest : Bytes}
    (hlen : req.contentLength = body.length) (h : req.contentLength ≤ req.mCheckIndex) :
    parseContent req (body ++ rest) =
      (some .GET_REQUEST, { req with body := body, mCheckState := .CHECK_STATE_SUCCESS }) := by
  have htake : (body ++ rest).take req.contentLength.toNat = body := by
    rw [hlen, Int.toNat_natCast, List.take_left]
  unfold parseContent
  rw [if_pos h, if_neg (by omega), htake]

end HttpRequest

/-- The body is awaited, and what has been scanned of it has no line end left. -/
structure InBody (req : HttpRequest) (u : Bytes) : Prop extends Scanned req.mCheckIndex u where
  phase : req.mCheckState = .CHECK_STATE_BODY

/-- A call in the body phase on a buffer with no more than the announced bytes, by how
the first line of the bytes ends. -/
inductive BodyCall (req : HttpRequest) (buf : FixedBuffer) (out : Called) : Prop where
  | unended (hl : Clean buf.unread) (short : (buf.used : Int) < req.contentLength)
      (hout : out = ⟨some .NO_REQUEST, req.scanned buf.used .LINE_OPEN, buf⟩)
  | whole (hl : Clean buf.unread) (full : (buf.used : Int) = req.contentLength)
      (hout : out = ⟨some .GET_REQUEST, req.stored buf.used .LINE_OPEN buf.unread, buf⟩)
  | halfEnded (l : Bytes) (hl : Clean l) (hu : buf.unread = l ++ [CR])
      (hout : out = ⟨some .NO_REQUEST, req.scanned l.length .LINE_OPEN, buf⟩)
  | ended (l rest : Bytes) (hl : Clean l) (hu : buf.unread = l ++ CR :: LF :: rest)
      (short : (l.length + 2 : Int) < req.contentLength)
      (buf' : FixedBuffer) (ok : buf'.Ok) (cap_eq : buf'.cap = buf.cap)
      (unread : buf'.unread = l ++ 0 :: 0 :: rest)
      (hout : out = ⟨some .NO_REQUEST, req.scanned (l.length + 2) .LINE_OK, buf'⟩)
  | wholeEnded (l : Bytes) (hl : Clean l) (hu : buf.unread = l ++ [CR, LF])
      (full : (buf.used : Int) = req.contentLength) (buf' : FixedBuffer)
      (ok : buf'.Ok) (unread : buf'.unread = l ++ [0, 0])
      (hout : out = ⟨some .GET_REQUEST, req.stored (l.length + 2) .LINE_OK (l ++ [0, 0]), buf'⟩)
  | refused (l : Bytes) (c : UInt8) (rest : Bytes) (hl : Clean l) (hc : c = CR ∨ c = LF)
      (hu : buf.unread = l ++ c :: rest) (next : c = CR → ∃ d r, rest = d :: r ∧ d ≠ LF)
      (hout : out = ⟨some .BAD_REQUEST, req.scanned l.length .LINE_BAD, buf⟩)

namespace HttpRequest

variable {req : HttpRequest} {buf : FixedBuffer}

theorem processRead_inBody {line : LINE_STATE} {i : Nat} {text : Bytes}
    (hst : req.mCheckState = .CHECK_STATE_BODY) (hpos : 0 < buf.used)
    (hline : parseLine buf.text buf.used req.mCheckIndex = (line, i, text)) :
    processRead req buf =
      if line = .LINE_BAD then ⟨some .BAD_REQUEST, req.scanned i line, buf.setText text⟩
      else
        ⟨(parseContent (req.scanned i line) (buf.setText text).text).1,
          (parseContent (req.scanned i line) (buf.setText text).text).2, buf.setText text⟩ := by
  rw [processRead_done hpos (round_body buf hst), hline]
  rfl

theorem processRead_body (hok : buf.Ok) (hin : InBody req buf.unread) (hpos : 0 < buf.used)
    (hn : (buf.used : Int) ≤ req.contentLength) : BodyCall req buf (processRead req buf) := by
  have hused : buf.used = buf.unread.length := hok.unread_length.symm
  cases lineScan hok hin.toScanned with
  | unended hl hline =>
    have hcall := processRead_inBody hin.phase hpos hline
    rw [if_neg (by simp), setText_text, ← hused] at hcall
    by_cases hfull : (buf.used : Int) = req.contentLength
    · rw [hok.text_eq, parseContent_full (by rw [scanned_head, ← hfull, hused]) (by simp [hfull])] at hcall
      exact .whole hl hfull hcall
    · rw [parseContent_short _ (by simp; omega)] at hcall
      exact .unended hl (by omega) hcall
  | halfEnded l hl hu hline =>
    have hcall := processRead_inBody hin.phase hpos hline
    have hlen : buf.used = l.length + 1 := by rw [hused, hu]; simp
    rw [if_neg (by simp), setText_text, parseContent_short _ (by simp; omega)] at hcall
    exact .halfEnded l hl hu hcall
  | ended l rest junk hl hu htext hline =>
    have hlen : buf.used = l.length + 2 + rest.length := by rw [hused, hu]; simp; omega
    have hcall := processRead_inBody hin.phase hpos hline
    have htlen : (l ++ 0 :: 0 :: (rest ++ junk)).length = buf.text.length := by simp [htext]
    obtain ⟨_, htext'⟩ := hok.setText htlen
    obtain ⟨hok', hunread⟩ := unread_overwritten hok (k := l) rfl ⟨hl, hu⟩ htext
    rw [if_neg (by simp)] at hcall
    by_cases hfull : (l.length + 2 : Int) < req.contentLength
    · rw [parseContent_short _ (by simpa using hfull)] at hcall
      exact .ended l rest hl hu hfull _ hok' rfl hunread hcall
    · obtain rfl : rest = [] := List.eq_nil_of_length_eq_zero (by omega)
      have hcl : req.contentLength = (l ++ [0, 0]).length := by
        simp only [List.length_append, List.length_cons, List.length_nil] at hlen ⊢
        omega
      have hbody : (buf.setText (l ++ 0 :: 0 :: ([] ++ junk))).text = (l ++ [0, 0]) ++ junk := by
        rw [htext']
        simp
      rw [hbody, parseContent_full (by rw [scanned_head]; exact hcl) (by simp [hcl])] at hcall
      refine .wholeEnded l hl hu ?_ _ hok' hunread hcall
      simp only [List.length_nil] at hlen
      omega
  | loneCR l d rest hl hd hu hline =>
    have hcall := processRead_inBody hin.phase hpos hline
    rw [if_pos rfl, setText_text] at hcall
    exact .refused l CR (d :: rest) hl (Or.inl rfl) hu (fun _ => ⟨d, rest, rfl, hd⟩) hcall
  | loneLF l rest hl hu hline =>
    have hcall := processRead_inBody hin.phase hpos hline
    rw [if_pos rfl, setText_text] at hcall
    exact .refused l LF rest hl (Or.inr rfl) hu (fun h => absurd h (by decide)) hcall

end HttpRequest

/-- No line end, except that the body may end with one CR LF. -/
def Whole (body : Bytes) : Prop := Clean body ∨ ∃ l, Clean l ∧ body = l ++ [CR, LF]

/-- A CR LF at the end of a body is stored as two NULs. -/
def storedBody (body : Bytes) : Bytes :=
  if [CR, LF] <:+ body then body.take (body.length - 2) ++ [0, 0] else body

theorem storedBody_clean {body : Bytes} (h : Clean body) : storedBody body = body := by
  rw [storedBody, if_neg]
  rintro ⟨l, rfl⟩
  exact (h CR (by simp)).1 rfl

theorem storedBody_ended (l : Bytes) : storedBody (l ++ [CR, LF]) = l ++ [0, 0] := by
  rw [storedBody, if_pos (List.suffix_append _ _)]
  simp

/-- A line end inside a body keeps it from being whole. -/
theorem not_whole_of_inner {l : Bytes} {c : UInt8} (rest more : Bytes) (hl : Clean l) (hc : c = CR ∨ c = LF)
    (hinner : c = CR → (rest ++ more) ≠ [LF]) : ¬ Whole (l ++ c :: rest ++ more) := by
  rintro (hclean | ⟨m, hm, heq⟩)
  · obtain ⟨hcr, hlf⟩ := hclean c (by simp)
    exact hc.elim hcr hlf
  · -- both cut the bytes at their first line end
    have hcut : l = m := by
      rw [← takeWhile_clean hl hc (rest ++ more), ← takeWhile_clean hm (Or.inl rfl) [LF], ← heq]
      simp
    subst hcut
    rw [List.append_assoc, List.append_cancel_left_eq, List.cons_append, List.cons.injEq] at heq
    exact hinner heq.1 heq.2

/-- `body` follows the head `head`, which sets the fields `f` and announces it. -/
structure Announced (head body : Bytes) (f : Head) : Prop where
  reference : referenceHead cstr head = .body f head.length
  length : f.contentLength = body.length
  nonempty : 0 < body.length

/-- The head is parsed and the bytes `b` of a body are in the buffer, if `W` as they came. -/
structure BodyPhase (cap : Nat) (W : Prop) (f : Head) (req : HttpRequest) (buf : FixedBuffer)
    (b : Bytes) : Prop where
  ok : buf.Ok
  cap_eq : buf.cap = cap
  fields : req.toHead = f
  noBody : req.body = []
  inBody : InBody req buf.unread
  size : buf.unread.length = b.length
  exact : W → buf.unread = b

/-- Not all bytes of `head ++ body` have come, and no request has been returned. -/
inductive Awaiting (cap : Nat) (head body : Bytes) (f : Head) (s : Called) (seen : Bytes) : Prop where
  | head (n : Nat) (openHead : OpenHead cap s n seen) (hlt : seen.length < head.length)
  | body (b : Bytes) (hseen : seen = head ++ b) (hlt : b.length < body.length)
      (phase : BodyPhase cap (Whole body) f s.req s.buf b)

/-- The call that sees the last byte, on bytes that are, if `W`, still as they came. -/
inductive LastCall (W : Prop) (body : Bytes) (f : Head) (out : Called) : Prop where
  | got (ret : out.ret = some .GET_REQUEST) (fields : out.req.toHead = f) (clean : Clean out.req.body)
      (state : out.req.mCheckState = .CHECK_STATE_SUCCESS)
      (exact : W → Whole body ∧ out.req.body = storedBody body)
  | missed (ret : out.ret = some .NO_REQUEST ∨ out.ret = some .BAD_REQUEST)
      (hbody : W → ¬ Whole body)

section
variable {cap : Nat} {head body : Bytes} {f : Head} {req : HttpRequest} {buf : FixedBuffer} {b : Bytes}
  {W : Prop}

theorem BodyPhase.used_eq (h : BodyPhase cap W f req buf b) : buf.used = b.length := by
  rw [← h.ok.unread_length, h.size]

/-- The state after a scan that did not return the body. -/
theorem BodyPhase.scanned (h : BodyPhase cap W f req buf b) {i : Nat} (line : LINE_STATE)
    {buf' : FixedBuffer} (hok : buf'.Ok) (hcap : buf'.cap = buf.cap) (hi : Scanned i buf'.unread)
    (hsize : buf'.unread.length = buf.unread.length) (hexact : W → buf'.unread = b) :
    BodyPhase cap W f (req.scanned i line) buf' b :=
  ⟨hok, hcap.trans h.cap_eq, h.fields, h.noBody, ⟨hi, h.inBody.phase⟩, hsize.trans h.size, hexact⟩

/-- A call before the last byte. -/
theorem BodyPhase.early (h : BodyPhase cap (Whole body) f req buf b) (hlen : f.contentLength = body.length)
    (hpre : b <+: body) (hlt : b.length < body.length) :
    (processRead req buf).ret ∈ [some HTTP_CODE.NO_REQUEST, some HTTP_CODE.BAD_REQUEST] ∧
      (Whole body → (processRead req buf).ret = some .NO_REQUEST) ∧
      BodyPhase cap (Whole body) f (processRead req buf).req (processRead req buf).buf b := by
  have hused := h.used_eq
  have hcl : req.contentLength = body.length := by rw [← hlen, ← h.fields]
  obtain ⟨more, hmore⟩ := hpre
  have hne : more ≠ [] := by
    rintro rfl
    rw [List.append_nil] at hmore
    rw [hmore] at hlt
    omega
  by_cases h0 : buf.used = 0
  · rw [HttpRequest.processRead_empty h0]
    exact ⟨by simp, fun _ => rfl, h⟩
  cases HttpRequest.processRead_body h.ok h.inBody (by omega) (by rw [hcl, hused]; omega) with
  | unended hl short hout =>
    rw [hout]
    have hscan : Scanned buf.used buf.unread := by
      have := Scanned.whole hl []
      rwa [List.append_nil, h.size, ← hused] at this
    exact ⟨by simp, fun _ => rfl, h.scanned _ h.ok rfl hscan rfl h.exact⟩
  | whole hl full hout => rw [hcl, hused] at full; omega
  | halfEnded l hl hu hout =>
    rw [hout]
    exact ⟨by simp, fun _ => rfl, h.scanned _ h.ok rfl (by rw [hu]; exact .whole hl _) rfl h.exact⟩
  | ended l rest hl hu short buf' ok cap_eq unread hout =>
    rw [hout]
    have hscan : Scanned (l.length + 2) buf'.unread := by
      have hclean : Clean (l ++ [0, 0]) := clean_append.mpr ⟨hl, by simp [CR, LF]⟩
      have := Scanned.whole hclean rest
      simpa [unread] using this
    refine ⟨by simp, fun _ => rfl, h.scanned _ ok cap_eq hscan (by rw [unread, hu]; simp) fun hw => ?_⟩
    refine absurd hw ?_
    rw [← hmore, ← h.exact hw, hu]
    refine not_whole_of_inner _ _ hl (Or.inl rfl) fun _ => ?_
    simp [hne]
  | wholeEnded l hl hu full buf' ok unread hout => rw [hcl, hused] at full; omega
  | refused l c rest hl hc hu next hout =>
    rw [hout]
    refine ⟨by simp, fun hw => ?_, h.scanned _ h.ok rfl (by rw [hu]; exact .whole hl _) rfl h.exact⟩
    refine absurd hw ?_
    rw [← hmore, ← h.exact hw, hu]
    refine not_whole_of_inner _ _ hl hc fun hcr => ?_
    obtain ⟨d, r, rfl, hd⟩ := next hcr
    simp [hd]

/-- The call that sees the last byte. -/
theorem BodyPhase.last (h : BodyPhase cap W f req buf body) (hlen : f.contentLength = body.length)
    (hpos : 0 < body.length) : LastCall W body f (processRead req buf) := by
  have hused := h.used_eq
  have hcl : req.contentLength = body.length := by rw [← hlen, ← h.fields]
  cases HttpRequest.processRead_body h.ok h.inBody (by omega) (by omega) with
  | unended hl short hout => rw [hcl, hused] at short; omega
  | whole hl full hout =>
    rw [hout]
    refine .got rfl h.fields hl rfl fun hw => ?_
    have hbody : Clean body := h.exact hw ▸ hl
    rw [storedBody_clean hbody]
    exact ⟨Or.inl hbody, h.exact hw⟩
  | halfEnded l hl hu hout =>
    rw [hout]
    refine .missed (Or.inl rfl) fun hw => ?_
    have := not_whole_of_inner [] [] hl (Or.inl rfl) (by simp)
    rwa [List.append_nil, ← hu, h.exact hw] at this
  | ended l rest hl hu short buf' ok cap_eq unread hout =>
    rw [hout]
    refine .missed (Or.inl rfl) fun hw => ?_
    have hrest : rest ≠ [] := by
      rintro rfl
      have := congrArg List.length hu
      rw [h.size] at this
      simp only [List.length_append, List.length_cons, List.length_nil] at this
      rw [hcl] at short
      omega
    have := not_whole_of_inner (LF :: rest) [] hl (Or.inl rfl) (by simp [hrest])
    rwa [List.append_nil, ← hu, h.exact hw] at this
  | wholeEnded l hl hu full buf' ok unread hout =>
    rw [hout]
    refine .got rfl h.fields (clean_append.mpr ⟨hl, by simp [CR, LF]⟩) rfl fun hw => ?_
    have hbody : body = l ++ [CR, LF] := (h.exact hw).symm.trans hu
    rw [hbody, storedBody_ended]
    exact ⟨Or.inr ⟨l, hl, rfl⟩, rfl⟩
  | refused l c rest hl hc hu next hout =>
    rw [hout]
    refine .missed (Or.inr rfl) fun hw => ?_
    have := not_whole_of_inner rest [] hl hc fun hcr => by
      obtain ⟨d, r, rfl, hd⟩ := next hcr
      simp [hd]
    rwa [List.append_nil, ← hu, h.exact hw] at this

end

section
variable {cap n : Nat} {head body seen c : Bytes} {f : Head} {s : Called} {W : Prop}

/-- A chunk that stays within the head leaves it open, and one that passes its end
brings the call to the body phase. -/
inductive Entered (cap : Nat) (W : Prop) (head : Bytes) (f : Head) (seen : Bytes) (out : Called) :
    Prop where
  | head (n : Nat) (ret : out.ret = some .NO_REQUEST) (openHead : OpenHead cap out n seen)
      (hlt : seen.length < head.length)
  | body (b : Bytes) (hseen : seen = head ++ b) (req : HttpRequest) (buf : FixedBuffer)
      (hout : out = processRead req buf) (phase : BodyPhase cap W f req buf b)

theorem OpenHead.enter (h : OpenHead cap s n seen) (ha : Announced head body f)
    (hfit : head.length + body.length ≤ cap) (hpre : (seen ++ c) <+: head ++ body) :
    s.Accepts c ∧ Entered cap W head f (seen ++ c) (s.receive c) := by
  obtain ⟨more, hmore⟩ := hpre
  have hlen : (seen ++ c).length ≤ cap := by
    have := congrArg List.length hmore
    simp only [List.length_append] at this ⊢
    omega
  have hdecided : ∀ v, referenceHead cstr (head ++ v) = .body f head.length := fun v => by
    rw [referenceHead_append (by simp [ha.reference]), ha.reference]
  have hacc : s.Accepts c := h.accepts (by simpa using hlen)
  refine ⟨hacc, ?_⟩
  cases h.receive hacc with
  | waiting m ret next =>
    rcases Nat.lt_or_ge (seen ++ c).length head.length with hlt | hge
    · exact .head m ret next hlt
    · obtain ⟨b, hb⟩ := List.prefix_of_prefix_length_le (List.prefix_append head body) ⟨more, hmore⟩ hge
      have := next.incomplete
      rw [← hb, hdecided] at this
      cases this
  | rejected ret phase reference =>
    have := reference more
    rw [hmore, hdecided] at this
    cases this
  | complete m hm ret state noBody ok cap_eq unread body reference =>
    have := reference more
    rw [hmore, hdecided] at this
    cases this
  | body req₁ buf₁ m hm again state index hasBody ok cap_eq unread noBody reference =>
    have href := reference more
    rw [hmore, hdecided] at href
    obtain ⟨hf, rfl⟩ := HeadOutcome.body.inj href
    obtain ⟨b, hb⟩ := List.prefix_of_prefix_length_le (List.prefix_append head body) ⟨more, hmore⟩ hm
    have hunread : buf₁.unread = b := by rw [unread, ← hb, List.drop_left]
    exact .body b hb.symm req₁ buf₁ again
      ⟨ok, cap_eq, hf.symm, noBody, ⟨by rw [index]; exact .zero _, state⟩, by rw [hunread],
        fun _ => hunread⟩

theorem BodyPhase.enter {b : Bytes} (h : BodyPhase cap W f s.req s.buf b)
    (hpre : (head ++ b ++ c) <+: head ++ body) (hbody : body.length ≤ cap) :
    s.Accepts c ∧ Entered cap W head f (head ++ b ++ c) (s.receive c) := by
  have hlen : b.length + c.length ≤ body.length := by
    have := hpre.length_le
    simp only [List.length_append] at this
    omega
  have happ := h.ok.append c
  have hacc : s.Accepts c := (happ.accepts (by rw [h.cap_eq, h.used_eq]; omega)).1
  have hunread := happ.unread_of_ret hacc
  refine ⟨hacc, .body (b ++ c) (List.append_assoc _ _ _) _ _ rfl ?_⟩
  refine ⟨happ.ok, happ.cap.trans h.cap_eq, h.fields, h.noBody, ⟨?_, h.inBody.phase⟩, ?_, ?_⟩
  · rw [hunread]
    exact h.inBody.toScanned.append c
  · rw [hunread, List.length_append, List.length_append, h.size]
  · intro hw
    rw [hunread, h.exact hw]

theorem Awaiting.enter (h : Awaiting cap head body f s seen) (ha : Announced head body f)
    (hfit : head.length + body.length ≤ cap) (hpre : (seen ++ c) <+: head ++ body) :
    s.Accepts c ∧ Entered cap (Whole body) head f (seen ++ c) (s.receive c) := by
  cases h with
  | head n openHead hlt => exact openHead.enter ha hfit hpre
  | body b hseen hlt phase =>
    subst hseen
    exact phase.enter hpre (by omega)

/-- A chunk that does not bring the last byte. -/
theorem Awaiting.early (h : Awaiting cap head body f s seen) (ha : Announced head body f)
    (hfit : head.length + body.length ≤ cap) (hpre : (seen ++ c) <+: head ++ body)
    (hlt : (seen ++ c).length < (head ++ body).length) :
    (s.receive c).ret ∈ [some HTTP_CODE.NO_REQUEST, some HTTP_CODE.BAD_REQUEST] ∧
      (Whole body → (s.receive c).ret = some .NO_REQUEST) ∧
      Awaiting cap head body f (s.receive c) (seen ++ c) := by
  cases (h.enter ha hfit hpre).2 with
  | head n ret openHead hlt => exact ⟨by simp [ret], fun _ => ret, .head n openHead hlt⟩
  | body b hseen req buf hout phase =>
    rw [hseen] at hpre hlt
    have hb : b <+: body := (List.prefix_append_right_inj head).mp hpre
    have hblt : b.length < body.length := by simpa using hlt
    rw [hout]
    obtain ⟨hret, hwhole, hphase⟩ := phase.early ha.length hb hblt
    exact ⟨hret, hwhole, .body b hseen hblt hphase⟩

/-- The chunk that brings the last byte. -/
theorem Entered.last {out : Called} (h : Entered cap W head f (head ++ body) out)
    (ha : Announced head body f) : LastCall W body f out := by
  cases h with
  | head n ret openHead hlt =>
    have := ha.nonempty
    rw [List.length_append] at hlt
    omega
  | body b hseen req buf hout phase =>
    obtain rfl : body = b := List.append_cancel_left hseen
    rw [hout]
    exact phase.last ha.length ha.nonempty

theorem Awaiting.last (h : Awaiting cap head body f s seen) (ha : Announced head body f)
    (hfit : head.length + body.length ≤ cap) (hall : seen ++ c = head ++ body) :
    LastCall (Whole body) body f (s.receive c) := by
  have henter := (h.enter ha hfit ⟨[], by rw [hall, List.append_nil]⟩).2
  rw [hall] at henter
  exact henter.last ha

/-- The run up to any chunk before the last byte. -/
theorem awaiting_run {mem : Bytes} (hmem : mem.length < 2 ^ 31) (ha : Announced head body f)
    (hfit : head.length + body.length ≤ mem.length) (pre : List Bytes)
    (hpre : pre.flatten <+: head ++ body) (hlt : pre.flatten.length < (head ++ body).length) :
    Awaiting mem.length head body f (feed Called.receive (.start mem) pre) pre.flatten := by
  induction pre using List.reverseRecOn with
  | nil =>
    have hhead : 0 < head.length := by
      refine List.length_pos_iff.mpr ?_
      rintro rfl
      have := ha.reference
      simp [referenceHead, cutLines, requestLine, CutEnd.outcome] at this
    exact .head 0 (openHead_start hmem) hhead
  | append_singleton pre c ih =>
    rw [feed_concat]
    simp only [List.flatten_append, List.flatten_cons, List.flatten_nil, List.append_nil] at hpre hlt ⊢
    have hprev := ih ((List.prefix_append _ _).trans hpre) (by rw [List.length_append] at hlt; omega)
    exact (hprev.early ha hfit hpre hlt).2.2

end

/-- Every call before the last byte returns `NO_REQUEST`, and the call that first sees
the last byte returns the request with its body. -/
def BodyTransparent (mem body : Bytes) (chunks : List Bytes) : Prop :=
  ∀ pre c post, chunks = pre ++ c :: post →
    let out := (feed Called.receive (.start mem) pre).receive c
    ((pre ++ [c]).flatten ≠ chunks.flatten → out.ret = some .NO_REQUEST) ∧
      (pre.flatten ≠ chunks.flatten → (pre ++ [c]).flatten = chunks.flatten →
        out.ret = some .GET_REQUEST ∧ out.req.body = body)

/-- Whatever the cut, a body is passed on unchanged if and only if it has no CR and no LF. -/
theorem bodyTransparent_iff_clean (mem head body : Bytes) (f : Head) (chunks : List Bytes)
    (hmem : mem.length < 2 ^ 31) (ha : Announced head body f)
    (hfit : head.length + body.length ≤ mem.length) (hcut : chunks.flatten = head ++ body) :
    BodyTransparent mem body chunks ↔ Clean body := by
  have hne : chunks.flatten ≠ [] := by
    have := ha.nonempty
    rw [hcut]
    refine List.length_pos_iff.mp ?_
    rw [List.length_append]
    omega
  constructor
  · intro htrans
    obtain ⟨pre, c, post, hsplit, hlt, hall⟩ := exists_last_chunk hne
    have hlast := (htrans pre c post hsplit).2 (fun h => by rw [h] at hlt; omega) hall
    have hpre : pre.flatten <+: head ++ body := by
      rw [← hcut, hsplit, List.flatten_append]
      exact List.prefix_append _ _
    have hrun := awaiting_run hmem ha hfit pre hpre (by rw [← hcut]; exact hlt)
    rw [hcut] at hall
    cases hrun.last (c := c) ha hfit (by simpa using hall) with
    | got ret fields clean state exact => exact hlast.2 ▸ clean
    | missed ret hbody =>
      rw [hlast.1] at ret
      simp at ret
  · intro hclean pre c post hsplit
    have hpre : (pre.flatten ++ c) <+: head ++ body := by
      rw [← hcut, hsplit]
      exact ⟨post.flatten, by simp⟩
    have hrun := fun hlt => awaiting_run hmem ha hfit pre ((List.prefix_append _ _).trans hpre) hlt
    have hlen := hpre.length_le
    simp only [hcut, List.flatten_append, List.flatten_cons, List.flatten_nil, List.append_nil]
    constructor
    · intro hmore
      have hlt : (pre.flatten ++ c).length < (head ++ body).length :=
        lt_of_le_of_ne hlen fun h => hmore (hpre.eq_of_length h)
      exact ((hrun (by rw [List.length_append] at hlt; omega)).early ha hfit hpre hlt).2.1 (Or.inl hclean)
    · intro hbefore hall
      have hlt : pre.flatten.length < (head ++ body).length := by
        refine lt_of_le_of_ne ((List.prefix_append _ c).trans hpre).length_le fun h => hbefore ?_
        exact ((List.prefix_append _ c).trans hpre).eq_of_length h
      cases (hrun hlt).last ha hfit hall with
      | got ret fields clean state exact =>
        exact ⟨ret, (exact (Or.inl hclean)).2.trans (storedBody_clean hclean)⟩
      | missed ret hbody => exact absurd (Or.inl hclean) (hbody (Or.inl hclean))

/-- A head whose announced length is `n`. -/
def postHead (n : String) : Bytes := ascii ("POST / HTTP/1.1\r\nContent-length: " ++ n ++ "\r\n\r\n")

/-- A body that happens to be cut inside, and has no line end. -/
theorem bodyTransparent_plain :
    BodyTransparent (List.replicate 64 0) (ascii "a=1") [postHead "3" ++ ascii "a", ascii "=1"] :=
  (bodyTransparent_iff_clean (List.replicate 64 0) (postHead "3") (ascii "a=1")
    { method := some .POST, url := ascii "/", version := ascii "HTTP/1.1", contentLength := 3 }
    [postHead "3" ++ ascii "a", ascii "=1"] (by decide)
    ⟨by decide +kernel, by decide +kernel, by decide +kernel⟩ (by decide +kernel) (by decide +kernel)).mpr
    (by decide)

/-- A body that is one LF, delivered with its head in one chunk, is refused. -/
theorem bodyTransparent_lf :
    Announced (postHead "1") (ascii "\n")
        { method := some .POST, url := ascii "/", version := ascii "HTTP/1.1", contentLength := 1 } ∧
      (postHead "1").length + (ascii "\n").length ≤ 64 ∧
      ¬ BodyTransparent (List.replicate 64 0) (ascii "\n") [postHead "1" ++ ascii "\n"] := by
  refine ⟨⟨by decide +kernel, by decide +kernel, by decide +kernel⟩, by decide +kernel, fun h => ?_⟩
  have hlast := (h [] _ [] rfl).2 (by decide +kernel) rfl
  exact absurd hlast.1 (by decide +kernel)

end Knpnl.Http
