import Knpnl.Http.Accesses
import Knpnl.Http.KeepAlive
import Knpnl.Http.Phases

/-!
# A parser after `Init`

`Init` assigns `mCheckIndex` twice and leaves `mCheckState` alone, so a parser that has returned a
request stays in the state in which nothing is parsed: its calls only look for line ends, and find
the bytes bad where the lines of the whole buffer end badly. A new parser gives the same results
as long as it has nothing else to say.
-/
namespace Knpnl.Http

open Lib Lib.CString Lib.Feed
open Base (FixedBuffer)
open HttpRequest (Called Round round rounds processRead)

/-- A parser and a buffer before their first call. -/
def HttpRequest.Called.before (req : HttpRequest) (buf : FixedBuffer) : Called := ⟨some .NO_REQUEST, req, buf⟩

/-- The same result, and for a complete request the same fields. -/
def SameAnswer (out out' : Called) : Prop :=
  out.ret = out'.ret ∧ (out'.ret = some .GET_REQUEST →
    out.req.url = out'.req.url ∧ out.req.version = out'.req.version ∧ out.req.host = out'.req.host ∧
      out.req.isAlive = out'.req.isAlive ∧ out.req.contentLength = out'.req.contentLength ∧
      out.req.body = out'.req.body)

/-- After `Init`, and with the buffer `buf`, `req` gives the answers of a new parser. -/
def AsNew (req : HttpRequest) (buf : FixedBuffer) (chunks : List Bytes) : Prop :=
  ∀ pre, pre <+: chunks →
    SameAnswer (feed Called.receive (.before req.Init buf) pre) (feed Called.receive (.before {} buf) pre)

/-- Whether the lines of the unread bytes end badly. -/
def lineAnswer (u : Bytes) : HTTP_CODE := if cutEnd u = .bad then .BAD_REQUEST else .NO_REQUEST

/-- Behind a head that announces `len` bytes: nothing has come, or the first line end is malformed,
or the first line ends before the announced length and no line ends badly. -/
def BodyUnnoticed (len : Int) (u : Bytes) : Prop :=
  u = [] ∨ Malformed u ∨ (lineStop u : Int) < len ∧ cutEnd u = .more

/-- A new parser in the state of `r` has nothing to say of the unread bytes `u` but how their lines
end: they hold no complete head, or one that is refused while some line ends badly, or one that
announces a body which goes unnoticed. -/
def Unnoticed (r : HttpRequest) (u : Bytes) : Prop :=
  if r.mCheckState = .CHECK_STATE_SUCCESS then True
  else if r.mCheckState = .CHECK_STATE_BODY then BodyUnnoticed r.contentLength u
  else
    match resume cstr r.mCheckState r.toHead 0 u with
    | .incomplete => True
    | .rejected => cutEnd u = .bad
    | .complete _ _ => False
    | .body f n => BodyUnnoticed f.contentLength (u.drop n)

instance (len : Int) (u : Bytes) : Decidable (BodyUnnoticed len u) :=
  inferInstanceAs (Decidable (_ ∨ _))

instance (r : HttpRequest) (u : Bytes) : Decidable (Unnoticed r u) :=
  if hs : r.mCheckState = .CHECK_STATE_SUCCESS then isTrue (by simp [Unnoticed, hs])
  else if hb : r.mCheckState = .CHECK_STATE_BODY then
    decidable_of_iff (BodyUnnoticed r.contentLength u) (by simp [Unnoticed, hb])
  else
    match h : resume cstr r.mCheckState r.toHead 0 u with
    | .incomplete => isTrue (by simp [Unnoticed, hs, hb, h])
    | .rejected => decidable_of_iff (cutEnd u = .bad) (by simp [Unnoticed, hs, hb, h])
    | .complete _ _ => isFalse (by simp [Unnoticed, hs, hb, h])
    | .body f n => decidable_of_iff (BodyUnnoticed f.contentLength (u.drop n)) (by simp [Unnoticed, hs, hb, h])

theorem lineAnswer_bad {u : Bytes} (h : Malformed u) : lineAnswer u = .BAD_REQUEST := by
  unfold Malformed at h
  simp [lineAnswer, cutEnd, h]

theorem lineAnswer_more {u : Bytes} (h : cutEnd u = .more) : lineAnswer u = .NO_REQUEST := by
  simp [lineAnswer, h]

theorem lineAnswer_unended {u : Bytes} (h : Unended u) : lineAnswer u = .NO_REQUEST :=
  lineAnswer_more (by rw [cutEnd, h])

theorem lineAnswer_eq_bad {u : Bytes} : .BAD_REQUEST = lineAnswer u ↔ cutEnd u = .bad := by
  unfold lineAnswer
  split <;> simp [*]

theorem lineAnswer_eq_no {u : Bytes} : .NO_REQUEST = lineAnswer u ↔ cutEnd u = .more := by
  unfold lineAnswer
  cases cutEnd u <;> simp

theorem lineAnswer_ne_get (u : Bytes) : .GET_REQUEST ≠ lineAnswer u := by
  unfold lineAnswer
  split <;> simp

theorem lineAnswer_congr {u v : Bytes} (h : cutEnd u = cutEnd v) : lineAnswer u = lineAnswer v := by
  rw [lineAnswer, lineAnswer, h]

/-- What a call leaves of a parser in the last state. -/
structure SuccessCall (b : FixedBuffer) (u : Bytes) (r' : HttpRequest) (b' : FixedBuffer) : Prop where
  state : r'.mCheckState = .CHECK_STATE_SUCCESS
  scanned : Scanned r'.mCheckIndex b'.unread
  ok : b'.Ok
  cap_eq : b'.cap = b.cap
  size : b'.unread.length = u.length
  cutEnd_eq : ∀ v, cutEnd (b'.unread ++ v) = cutEnd (u ++ v)

section
variable {r : HttpRequest} {b : FixedBuffer}

theorem processRead_inSuccess (hok : b.Ok) (hst : r.mCheckState = .CHECK_STATE_SUCCESS)
    (hscanned : Scanned r.mCheckIndex b.unread) :
    (processRead r b).ret = some (lineAnswer b.unread) ∧
      SuccessCall b b.unread (processRead r b).req (processRead r b).buf := by
  have hending := HttpRequest.rounds_invariant (I := SuccessCall b b.unread) r b
    (fun r' b' r'' b'' _ hinv hround => ?_) ⟨hst, hscanned, hok, rfl, rfl, fun _ => rfl⟩
  · cases hending.2 with
    | drained r' b' inv empty hout =>
      have hnil := inv.ok.unread_eq_nil empty
      have hend := inv.cutEnd_eq []
      rw [hnil, List.append_nil, List.append_nil] at hend
      rw [hout]
      exact ⟨congrArg some (lineAnswer_more hend.symm).symm, inv⟩
    | returned r' b' inv pos mem hround =>
      have hend := inv.cutEnd_eq []
      rw [List.append_nil, List.append_nil] at hend
      have hway := HttpRequest.successRound inv.ok inv.state inv.scanned
      rw [hround] at hway
      generalize processRead r b = out at hway ⊢
      cases hway with
      | unended line i scanned open_ =>
        exact ⟨congrArg some ((lineAnswer_unended open_).symm.trans (lineAnswer_congr hend)),
          inv.state, scanned, inv.ok, inv.cap_eq, inv.size, inv.cutEnd_eq⟩
      | malformed i scanned bad =>
        exact ⟨congrArg some ((lineAnswer_bad bad).symm.trans (lineAnswer_congr hend)),
          inv.state, scanned, inv.ok, inv.cap_eq, inv.size, inv.cutEnd_eq⟩
  · have hway := HttpRequest.successRound hinv.ok hinv.state hinv.scanned
    rw [hround] at hway
    cases hway with
    | ended i b'' scanned ok cap_eq size cutEnd_eq =>
      exact ⟨hinv.state, scanned, ok, cap_eq.trans hinv.cap_eq, size.trans hinv.size,
        fun v => (cutEnd_eq v).trans (hinv.cutEnd_eq v)⟩

theorem BodyRound.cutEnd_eq {out : Called} (h : BodyRound r b out) (v : Bytes) :
    cutEnd (out.buf.unread ++ v) = cutEnd (b.unread ++ v) := by
  cases h with
  | malformed => rfl
  | parsed line b' good ok cap_eq size scanned le kept cutEnd_eq => exact cutEnd_eq v

/-- In the body state a call answers as if nothing was parsed exactly if the body goes unnoticed. -/
theorem unnoticed_body (hok : b.Ok) (hin : InBody r b.unread) :
    BodyUnnoticed r.contentLength b.unread ↔ (processRead r b).ret = some (lineAnswer b.unread) := by
  by_cases h0 : b.used = 0
  · have hnil := hok.unread_eq_nil h0
    rw [HttpRequest.processRead_empty h0, hnil]
    exact iff_of_true (Or.inl rfl) rfl
  have hne : b.unread ≠ [] := fun hnil => h0 (by rw [← hok.unread_length, hnil]; rfl)
  obtain ⟨out, hdone, hway⟩ := HttpRequest.bodyRound hok hin
  rw [HttpRequest.processRead_done (by omega) hdone]
  cases hway with
  | malformed i scanned le bad =>
    exact iff_of_true (Or.inr (Or.inl bad)) (congrArg some (lineAnswer_bad bad).symm)
  | parsed line b' good ok cap_eq size scanned le kept cutEnd_eq =>
    have hunnoticed : BodyUnnoticed r.contentLength b.unread ↔
        (lineStop b.unread : Int) < r.contentLength ∧ cutEnd b.unread = .more := by
      simp [BodyUnnoticed, hne, good]
    rw [hunnoticed]
    rcases HttpRequest.parseContent_cases (r.scanned (lineStop b.unread) line) b'.text with
      ⟨hwait, hcode⟩ | ⟨hneg, hcode⟩ | ⟨hnonneg, hle, hcode⟩
    · rw [hcode, Option.some.injEq, lineAnswer_eq_no]
      exact and_iff_right hwait
    · have hneg : r.contentLength < 0 := hneg
      rw [hcode]
      refine iff_of_false (fun h => ?_) (by simp)
      omega
    · have hle : r.contentLength ≤ lineStop b.unread := hle
      rw [hcode, Option.some.injEq]
      refine iff_of_false (fun h => ?_) (lineAnswer_ne_get _)
      omega

theorem headers_incomplete {ls : List Bytes} {f : Head} {n : Nat} {e : CutEnd}
    (h : headers cstr f n ls e = .incomplete) : e = .more := by
  induction ls generalizing f n with
  | nil => cases e with
    | more => rfl
    | bad => cases h
  | cons l ls ih =>
    unfold headers at h
    split at h
    · split at h <;> cases h
    · exact ih h

/-- A head that is not complete has no malformed line end. -/
theorem cutEnd_of_incomplete {st : CHECK_STATE} {f : Head} {n : Nat} {u : Bytes}
    (h : resume cstr st f n u = .incomplete) : cutEnd u = .more := by
  unfold resume at h
  split at h
  · cases hlines : (cutLines [] u).1 with
    | nil =>
      rw [hlines] at h
      cases hend : (cutLines [] u).2 with
      | more => exact hend
      | bad =>
        rw [hend] at h
        cases h
    | cons l ls =>
      rw [hlines, requestLine] at h
      split at h
      · cases h
      · exact headers_incomplete h
  · exact headers_incomplete h

theorem unnoticed_of_phase {u : Bytes}
    (hphase : r.mCheckState = .CHECK_STATE_REQUEST ∨ r.mCheckState = .CHECK_STATE_HEADER) :
    Unnoticed r u ↔ match resume cstr r.mCheckState r.toHead 0 u with
      | .incomplete => True
      | .rejected => cutEnd u = .bad
      | .complete _ _ => False
      | .body f n => BodyUnnoticed f.contentLength (u.drop n) := by
  unfold Unnoticed
  rcases hphase with h | h <;> simp [h]

/-- While the head is open. -/
theorem unnoticed_head (hok : b.Ok) (hin : InHead r b.unread)
    (hlink : cutEnd (processRead r b).buf.unread = cutEnd b.unread) :
    Unnoticed r b.unread ↔ (processRead r b).ret = some (lineAnswer b.unread) := by
  rw [unnoticed_of_phase hin.phase]
  have hcall := HttpRequest.processRead_head r b hok hin
  generalize processRead r b = out at hcall hlink ⊢
  cases hcall with
  | waiting k hk ret inHead ok cap_eq unread body res undecided =>
    have hres := res 0 []
    rw [List.append_nil, List.append_nil, undecided] at hres
    rw [hres, ret, lineAnswer_more (cutEnd_of_incomplete hres)]
    exact iff_of_true trivial rfl
  | rejected ret phase res =>
    have hres := res 0 []
    rw [List.append_nil] at hres
    rw [hres, ret, Option.some.injEq, lineAnswer_eq_bad]
  | complete k hk ret state noBody ok cap_eq unread body res =>
    have hres := res 0 []
    rw [List.append_nil] at hres
    rw [hres, ret, Option.some.injEq]
    exact iff_of_false id (lineAnswer_ne_get _)
  | body req₁ buf₁ k hk again state index hasBody ok cap_eq unread body res =>
    have hres := res 0 []
    rw [List.append_nil, Nat.zero_add] at hres
    have hin₁ : InBody req₁ buf₁.unread := ⟨by rw [index]; exact .zero _, state⟩
    have hkept : cutEnd (processRead req₁ buf₁).buf.unread = cutEnd buf₁.unread := by
      by_cases h0 : buf₁.used = 0
      · rw [HttpRequest.processRead_empty h0]
      · obtain ⟨out₁, hdone, hway⟩ := HttpRequest.bodyRound ok hin₁
        rw [HttpRequest.processRead_done (by omega) hdone]
        simpa using hway.cutEnd_eq []
    rw [hres]
    dsimp only
    rw [← unread, unnoticed_body ok hin₁, ← again, ← lineAnswer_congr hlink, ← lineAnswer_congr hkept, ← again]

theorem Refused.resume_eq {u : Bytes} (h : Refused r u) (n : Nat) :
    resume cstr r.mCheckState r.toHead n u = if Unended u then .incomplete else .rejected := by
  cases firstLine u with
  | unended hl =>
    have hopen : Unended u := cutLines_unended hl []
    rw [if_pos hopen, resume_unendedLine hopen]
  | halfEnded l hl hu =>
    have hopen : Unended u := by rw [hu]; exact cutLines_halfEnded hl []
    rw [if_pos hopen, resume_unendedLine hopen]
  | ended l rest hl hu =>
    subst hu
    obtain ⟨state, hrules⟩ := h.rules_eq_none hl
    rw [if_neg (not_unended_ended hl rest), state, resume_request hl, hrules]
  | loneCR l d rest hl hd hu =>
    have hbad : Malformed u := by rw [hu]; exact cutLines_loneCR hl hd rest
    rw [if_neg hbad.not_unended, resume_malformed hbad]
  | loneLF l rest hl hu =>
    have hbad : Malformed u := by rw [hu]; exact cutLines_loneLF hl rest
    rw [if_neg hbad.not_unended, resume_malformed hbad]

/-- Once the head has been refused. -/
theorem unnoticed_refused (hok : b.Ok) (h : Refused r b.unread) :
    Unnoticed r b.unread ↔ (processRead r b).ret = some (lineAnswer b.unread) := by
  rw [unnoticed_of_phase h.phase, h.resume_eq]
  have hret : (processRead r b).ret = some (if Unended b.unread then .NO_REQUEST else .BAD_REQUEST) := by
    by_cases h0 : b.used = 0
    · have hnil := hok.unread_eq_nil h0
      rw [HttpRequest.processRead_empty h0, hnil]
      rfl
    · obtain ⟨out, hdone, left⟩ := HttpRequest.refusedRound hok h
      rw [HttpRequest.processRead_done (by omega) hdone, left.ret]
  rw [hret, Option.some.injEq]
  by_cases hopen : Unended b.unread
  · rw [if_pos hopen, if_pos hopen, lineAnswer_unended hopen]
    exact iff_of_true trivial rfl
  · rw [if_neg hopen, if_neg hopen, lineAnswer_eq_bad]

end

section
variable {cap : Nat} {stream : Bytes} {r : HttpRequest} {b : FixedBuffer}

/-- A round does not change how the lines of the unread bytes end. -/
theorem Parsing.cutEnd_round (h : Parsing cap stream r b) (v : Bytes) :
    match round r b with
    | .again _ b' => cutEnd (b'.unread ++ v) = cutEnd (b.unread ++ v)
    | .done out => cutEnd (out.buf.unread ++ v) = cutEnd (b.unread ++ v) := by
  obtain ⟨hok, hcap, phase⟩ := h
  have consumed : ∀ {l rest b'}, LineOf b l rest → Consumed b b' rest →
      cutEnd (b'.unread ++ v) = cutEnd (b.unread ++ v) := by
    intro l rest b' line consumed
    rw [consumed.unread, line.append_eq, cutEnd_ended line.clean]
  cases phase with
  | head n done openAt =>
    have hway := HttpRequest.headRound hok openAt.toInHead
    generalize round r b = o at hway
    cases hway with
    | unended | malformed => rfl
    | refused l rest line state rules out left =>
      show cutEnd (out.buf.unread ++ v) = _
      rw [left.cutEnd_eq, line.append_eq, cutEnd_ended line.clean]
    | accepted l rest line state method url version rules b' hconsumed => exact consumed line hconsumed
    | field l rest line state text b' hconsumed => exact consumed line hconsumed
    | complete l rest line state empty noBody b' hconsumed => exact consumed line hconsumed
    | body l rest line state empty hasBody b' hconsumed => exact consumed line hconsumed
  | refused refused refusedAt reference =>
    obtain ⟨out, hdone, left⟩ := HttpRequest.refusedRound hok refused
    rw [hdone]
    exact left.cutEnd_eq v
  | body n bodyAt =>
    obtain ⟨out, hdone, hway⟩ := HttpRequest.bodyRound hok bodyAt.toInBody
    rw [hdone]
    exact hway.cutEnd_eq v
  | success state scanned reference =>
    have hway := HttpRequest.successRound hok state scanned
    generalize round r b = o at hway
    cases hway with
    | unended | malformed => rfl
    | ended i b' scanned ok cap_eq size cutEnd_eq => exact cutEnd_eq v

theorem Parsing.cutEnd_call (h : Parsing cap stream r b) (v : Bytes) :
    cutEnd ((processRead r b).buf.unread ++ v) = cutEnd (b.unread ++ v) := by
  have hending := HttpRequest.rounds_invariant
    (I := fun r' b' => Parsing cap stream r' b' ∧ cutEnd (b'.unread ++ v) = cutEnd (b.unread ++ v)) r b
    (fun r' b' r'' b'' hmem hinv hround => ?_) ⟨h, rfl⟩
  · cases hending.2 with
    | drained r' b' inv empty hout => rw [hout, inv.2]
    | returned r' b' inv pos mem hround =>
      have hlast := inv.1.cutEnd_round v
      rw [hround] at hlast
      exact hlast.trans inv.2
  · have hnext := hinv.1.cutEnd_round v
    rw [hround] at hnext
    exact ⟨hinv.1.round_again (HttpRequest.used_pos_of_mem hmem) hround, hnext.trans hinv.2⟩

theorem Parsing.scanned (h : Parsing cap stream r b) : Scanned r.mCheckIndex b.unread := by
  cases h.phase with
  | head n done openAt => exact openAt.toInHead.toScanned
  | refused refused => exact refused.scanned
  | body n bodyAt => exact bodyAt.toInBody.toScanned
  | success state scanned => exact scanned

/-- A call answers as if nothing was parsed exactly if what it parses goes unnoticed. -/
theorem Parsing.unnoticed_iff (h : Parsing cap stream r b) :
    Unnoticed r b.unread ↔ (processRead r b).ret = some (lineAnswer b.unread) := by
  have hlink := h.cutEnd_call []
  rw [List.append_nil, List.append_nil] at hlink
  cases h.phase with
  | head n done openAt => exact unnoticed_head h.ok openAt.toInHead hlink
  | refused refused => exact unnoticed_refused h.ok refused
  | body n bodyAt =>
    rw [← unnoticed_body h.ok bodyAt.toInBody, Unnoticed, if_neg (by simp [bodyAt.phase]), if_pos bodyAt.phase]
  | success state scanned =>
    rw [Unnoticed, if_pos state]
    exact iff_of_true trivial (processRead_inSuccess h.ok state scanned).1

end

/-- The old parser has returned a request and the new one has read `stream`. Their buffers hold
bytes whose lines end alike, whatever follows. -/
structure Beside (cap : Nat) (stream : Bytes) (old new : Called) : Prop where
  state : old.req.mCheckState = .CHECK_STATE_SUCCESS
  scanned : Scanned old.req.mCheckIndex old.buf.unread
  ok : old.buf.Ok
  cap_eq : old.buf.cap = cap
  parsing : Parsing cap stream new.req new.buf
  used_le : new.buf.used ≤ old.buf.used
  cutEnd_eq : ∀ v, cutEnd (new.buf.unread ++ v) = cutEnd (old.buf.unread ++ v)

section
variable {cap : Nat} {stream : Bytes} {old new : Called} {c : Bytes}

/-- The old parser consumes nothing, so the new one has room for what it has room for. -/
theorem Beside.accepts (h : Beside cap stream old new) (hc : old.Accepts c) : new.Accepts c := by
  have happ := h.ok.append c
  have hroom : c.length ≤ old.buf.cap - old.buf.used := by
    by_contra hfull
    have hret : (old.buf.append c).ret = c.length := hc
    rw [(happ.refuses hfull).1] at hret
    omega
  have hused := h.used_le
  have hcap := h.cap_eq.trans h.parsing.cap_eq.symm
  exact ((h.parsing.ok.append c).accepts (by omega)).1

/-- One chunk: they stay side by side, and give the same result exactly if the chunk goes
unnoticed. -/
theorem Beside.receive (h : Beside cap stream old new) (hc : old.Accepts c) :
    Beside cap (stream ++ c) (old.receive c) (new.receive c) ∧
      (old.receive c).ret ≠ some .GET_REQUEST ∧
      (Unnoticed new.req (new.buf.append c).buf.unread ↔ (old.receive c).ret = (new.receive c).ret) := by
  have hold := h.ok.append c
  have hnew := h.parsing.ok.append c
  have holdUnread := hold.unread_of_ret hc
  have hnewUnread := hnew.unread_of_ret (h.accepts hc)
  have hscanned : Scanned old.req.mCheckIndex (old.buf.append c).buf.unread := by
    rw [holdUnread]
    exact h.scanned.append c
  obtain ⟨hret, left⟩ := processRead_inSuccess hold.ok h.state hscanned
  have hparsing := h.parsing.append (h.accepts hc)
  have hlink : ∀ v,
      cutEnd ((new.buf.append c).buf.unread ++ v) = cutEnd ((old.buf.append c).buf.unread ++ v) := by
    intro v
    rw [hnewUnread, holdUnread, List.append_assoc, List.append_assoc, h.cutEnd_eq]
  refine ⟨⟨left.state, left.scanned, left.ok, ?_, hparsing.call, ?_, fun v => ?_⟩, ?_, ?_⟩
  · exact left.cap_eq.trans (hold.cap.trans h.cap_eq)
  · have hindex := hparsing.scanned.index_le
    rw [hparsing.ok.unread_length] at hindex
    have hle := Access.used_processRead_le new.req (new.buf.append c).buf hparsing.ok hindex
    have hsize := left.size
    have hcount := h.used_le
    rw [left.ok.unread_length, holdUnread, List.length_append, h.ok.unread_length] at hsize
    rw [← hparsing.ok.unread_length, hnewUnread, List.length_append, h.parsing.ok.unread_length] at hle
    show (processRead new.req (new.buf.append c).buf).buf.used ≤
      (processRead old.req (old.buf.append c).buf).buf.used
    omega
  · exact (hparsing.cutEnd_call v).trans ((hlink v).trans (left.cutEnd_eq v).symm)
  · show (processRead old.req (old.buf.append c).buf).ret ≠ _
    rw [hret]
    exact fun hget => lineAnswer_ne_get _ (Option.some.inj hget).symm
  · have hsame := hlink []
    rw [List.append_nil, List.append_nil] at hsame
    rw [hparsing.unnoticed_iff, lineAnswer_congr hsame, ← hret]
    exact eq_comm

theorem sameAnswer_iff (hget : old.ret ≠ some .GET_REQUEST) : SameAnswer old new ↔ old.ret = new.ret :=
  ⟨And.left, fun hret => ⟨hret, fun hnew => absurd (hret.trans hnew) hget⟩⟩

theorem Beside.run (h : Beside cap stream old new) (hsame : SameAnswer old new) {chunks : List Bytes}
    (hfeed : Feeds Called.receive Called.Accepts old chunks) :
    (∀ pre, pre <+: chunks → SameAnswer (feed Called.receive old pre) (feed Called.receive new pre)) ↔
      Along Called.receive (fun s c => Unnoticed s.req (s.buf.append c).buf.unread) new chunks := by
  induction chunks generalizing stream old new with
  | nil =>
    refine iff_of_true (fun pre hpre => ?_) trivial
    rw [List.prefix_nil.mp hpre]
    exact hsame
  | cons c chunks ih =>
    obtain ⟨hnext, hget, hunnoticed⟩ := h.receive hfeed.1
    rw [← sameAnswer_iff hget] at hunnoticed
    constructor
    · intro hall
      have hfirst := hall [c] (List.prefix_append [c] chunks)
      refine ⟨hunnoticed.mpr hfirst, (ih hnext hfirst hfeed.2).mp fun pre hpre => ?_⟩
      exact hall (c :: pre) (List.cons_prefix_cons.mpr ⟨rfl, hpre⟩)
    · rintro ⟨hfirst, hrest⟩ pre hpre
      cases pre with
      | nil => exact hsame
      | cons d pre =>
        obtain ⟨rfl, hpre'⟩ := List.cons_prefix_cons.mp hpre
        exact (ih hnext (hunnoticed.mp hfirst) hfeed.2).mpr hrest pre hpre'

end

/-- After a request and `Init` a parser is as good as new on a sequence of chunks if and only if
every chunk goes unnoticed by a new parser. -/
theorem asNew_iff (r₀ : HttpRequest) (b₀ b : FixedBuffer) (hget : (processRead r₀ b₀).ret = some .GET_REQUEST)
    (hok : b.Ok) (hempty : b.unread = []) (chunks : List Bytes)
    (hfeed : Feeds Called.receive Called.Accepts (.before (processRead r₀ b₀).req.Init b) chunks) :
    AsNew (processRead r₀ b₀).req b chunks ↔
      Along Called.receive (fun s c => Unnoticed s.req (s.buf.append c).buf.unread) (.before {} b) chunks := by
  have hbeside : Beside b.cap [] (.before (processRead r₀ b₀).req.Init b) (.before {} b) :=
    ⟨HttpRequest.processRead_get r₀ b₀ hget, .zero _, hok, rfl, .start_of_empty hok hempty, le_rfl,
      fun _ => rfl⟩
  exact hbeside.run ⟨rfl, fun h => by cases h⟩ hfeed

/-- A request has been returned, and the next one comes without its last byte. -/
theorem asNew_iff_unfinished :
    AsNew (processRead {}
      ((FixedBuffer.fresh (List.replicate 64 0)).append (ascii "GET / HTTP/1.1\r\n\r\n")).buf).req
        (.fresh (List.replicate 64 0)) [ascii "GET / HT", ascii "TP/1.1\r\n\r"] :=
  (asNew_iff {} ((FixedBuffer.fresh (List.replicate 64 0)).append (ascii "GET / HTTP/1.1\r\n\r\n")).buf
    (.fresh (List.replicate 64 0)) (by decide +kernel) (FixedBuffer.fresh_ok (by decide)) (by decide)
    [ascii "GET / HT", ascii "TP/1.1\r\n\r"] (by decide +kernel)).mpr (by decide +kernel)

/-- Whatever requests a parser has returned, `Init` makes it as good as new. -/
def AlwaysAsNew : Prop :=
  ∀ (mem : Bytes) (first chunks : List Bytes), mem.length = FixedBuffer.kBufferSize →
    Feeds Called.receive Called.Accepts (.start mem) first →
    (feed Called.receive (.start mem) first).ret = some .GET_REQUEST →
    Feeds Called.receive Called.Accepts
      (.before (feed Called.receive (.start mem) first).req.Init (.fresh mem)) chunks →
    AsNew (feed Called.receive (.start mem) first).req (.fresh mem) chunks

/-- The same request once more. -/
theorem alwaysAsNew_again : ¬ AlwaysAsNew := by
  intro hclaim
  have hsame := hclaim (List.replicate 1024 0) [ascii "GET / HTTP/1.1\r\n\r\n"] [ascii "GET / HTTP/1.1\r\n\r\n"]
    List.length_replicate (by decide +kernel) (by decide +kernel) (by decide +kernel) _ (List.prefix_refl _)
  exact absurd hsame.1 (by decide +kernel)

end Knpnl.Http
