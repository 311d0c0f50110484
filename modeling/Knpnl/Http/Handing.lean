import Mathlib.Data.List.Forall2
import Knpnl.Http.Phases
import Knpnl.Http.Server

/-!
# What is handed over has been sent

Whatever bytes come and however they are cut, a parser returns a request at most once, and this is what
the bytes begin with: the head is the one that the reference reads in them, and the body is what follows
it, though line ends in it may have become NULs.
-/
namespace Knpnl.Http

open Lib.CString
open Base (FixedBuffer)
open HttpRequest (Called round processRead)

/-- `kept` is `sent`, some line ends having been overwritten. -/
def Nulled (sent kept : Bytes) : Prop := List.Forall₂ (fun c d => d = c ∨ d = 0 ∧ (c = CR ∨ c = LF)) sent kept

namespace Nulled

variable {a b c : Bytes}

theorem refl (a : Bytes) : Nulled a a := List.forall₂_same.mpr fun _ _ => Or.inl rfl

theorem trans (h : Nulled a b) (h' : Nulled b c) : Nulled a c := by
  induction h generalizing c with
  | nil => exact h'
  | cons hd _ ih =>
    cases h' with
    | cons hd' htl' =>
      refine .cons ?_ (ih htl')
      rcases hd' with rfl | ⟨rfl, hend⟩
      · exact hd
      · rcases hd with rfl | ⟨rfl, _⟩
        · exact Or.inr ⟨rfl, hend⟩
        · exact absurd hend (by decide)

theorem append (h : Nulled a b) (v : Bytes) : Nulled (a ++ v) (b ++ v) := List.rel_append h (refl v)

theorem take (h : Nulled a b) (n : Nat) : Nulled (a.take n) (b.take n) := List.forall₂_take n h

theorem set {i : Nat} (h : a.getD i 0 = CR ∨ a.getD i 0 = LF) : Nulled a (a.set i 0) := by
  induction a generalizing i with
  | nil => exact refl _
  | cons d a ih =>
    cases i with
    | zero => exact .cons (Or.inr ⟨rfl, h⟩) (refl a)
    | succ i => exact .cons (Or.inl rfl) (ih h)

end Nulled

/-- A scan overwrites nothing but line ends, and stays within its bytes. -/
theorem parseLine_nulled (rd_buf : Bytes) (sz i : Nat) : Nulled rd_buf (parseLine rd_buf sz i).2.2 := by
  fun_induction parseLine rd_buf sz i with
  | case2 i hi ch hcr hne hlf =>
    have hfirst : Nulled rd_buf (rd_buf.set i 0) := .set (Or.inl hcr)
    refine hfirst.trans (.set (Or.inr ?_))
    rw [List.getD_eq_getElem?_getD, List.getElem?_set_ne (by omega), ← List.getD_eq_getElem?_getD]
    exact hlf
  | case4 i hi ch hcr hlf hprev =>
    have hfirst : Nulled rd_buf (rd_buf.set i 0) := .set (Or.inr hlf)
    refine hfirst.trans (.set (Or.inl ?_))
    rw [List.getD_eq_getElem?_getD, List.getElem?_set_ne (by omega), ← List.getD_eq_getElem?_getD]
    exact hprev.2
  | case6 i hi ch hcr hlf ih => exact ih
  | case1 | case3 | case5 | case7 => exact .refl rd_buf

theorem parseLine_le (rd_buf : Bytes) {sz i : Nat} (h : i ≤ sz) : (parseLine rd_buf sz i).2.1 ≤ sz := by
  fun_induction parseLine rd_buf sz i with
  | case6 i hi ch hcr hlf ih => exact ih hi
  | case2 | case4 =>
    dsimp only
    omega
  | case1 | case3 | case5 | case7 => exact h

/-- The stream begins with the request. -/
inductive Sent (stream : Bytes) : Head × Bytes → Prop where
  | plain (f : Head) (n : Nat) (reference : referenceHead cstr stream = .complete f n) : Sent stream (f, [])
  | withBody (f : Head) (n : Nat) (sent body : Bytes) (reference : referenceHead cstr stream = .body f n)
      (isPart : sent <+: stream.drop n) (size : f.contentLength = sent.length) (nulled : Nulled sent body) :
      Sent stream (f, body)

theorem Sent.append {stream : Bytes} {request : Head × Bytes} (h : Sent stream request) (c : Bytes) :
    Sent (stream ++ c) request := by
  cases h with
  | plain f n reference =>
    refine .plain f n ?_
    rw [referenceHead_append (by simp [reference]), reference]
  | withBody f n sent body reference isPart size nulled =>
    refine .withBody f n sent body ?_ ?_ size nulled
    · rw [referenceHead_append (by simp [reference]), reference]
    · rw [List.drop_append]
      exact isPart.trans (List.prefix_append ..)

/-- Where a parser is after the bytes `stream`, and what it has kept of a body. -/
inductive Unserved (cap : Nat) (stream : Bytes) (r : HttpRequest) (b : FixedBuffer) : Prop where
  | head (n : Nat) (done : List Bytes) (ok : b.Ok) (cap_eq : b.cap = cap) (openAt : OpenAt stream r b n done)
      (noBody : r.body = [])
  | refused (ok : b.Ok) (cap_eq : b.cap = cap) (refused : Refused r b.unread)
      (reference : ∀ v, referenceHead cstr (stream ++ v) = .rejected)
  | body (n : Nat) (ok : b.Ok) (cap_eq : b.cap = cap) (bodyAt : BodyAt stream r b n) (noBody : r.body = [])
      (nulled : Nulled (stream.drop n) b.unread)

/-- How a call ends. -/
inductive CallEnd (cap : Nat) (stream : Bytes) (out : Called) : Prop where
  | waiting (ret : out.ret ≠ some .GET_REQUEST) (unserved : Unserved cap stream out.req out.buf)
      (open_ : ∀ f n, referenceHead cstr stream ≠ .complete f n)
  | served (ret : out.ret = some .GET_REQUEST) (state : out.req.mCheckState = .CHECK_STATE_SUCCESS)
      (sent : Sent stream out.req.fields)

section
variable {cap n : Nat} {stream c : Bytes} {r : HttpRequest} {b : FixedBuffer} {done : List Bytes} {out : Called}

theorem OpenAt.incomplete (h : OpenAt stream r b n done) (hopen : Unended b.unread) :
    referenceHead cstr stream = .incomplete := by
  have href := h.reference []
  rw [List.append_nil, List.append_nil] at href
  exact href.trans (resume_unendedLine hopen _ _ _)

/-- A call with an empty buffer. -/
theorem Unserved.drained (h : Unserved cap stream r b) (hempty : b.used = 0) (f : Head) (n : Nat) :
    referenceHead cstr stream ≠ .complete f n := by
  intro hcomplete
  cases h with
  | head m done ok cap_eq openAt noBody =>
    have hopen : Unended b.unread := by
      rw [ok.unread_eq_nil hempty]
      rfl
    cases hcomplete.symm.trans (openAt.incomplete hopen)
  | refused ok cap_eq refused reference => cases hcomplete.symm.trans (referenceHead_now reference)
  | body m ok cap_eq bodyAt noBody nulled => cases hcomplete.symm.trans (referenceHead_now bodyAt.reference)

theorem Parsing.bodyAt (h : Parsing cap stream r b) (state : r.mCheckState = .CHECK_STATE_BODY) {f : Head}
    (href : referenceHead cstr stream = .body f n) : BodyAt stream r b n := by
  cases h.phase with
  | head m done openAt => rcases openAt.phase with hst | hst <;> cases state.symm.trans hst
  | refused refused => rcases refused.phase with hst | hst <;> cases state.symm.trans hst
  | body m bodyAt =>
    obtain ⟨_, rfl⟩ := HeadOutcome.body.inj (href.symm.trans (referenceHead_now bodyAt.reference))
    exact bodyAt
  | success hst => cases state.symm.trans hst

/-- A round of the body phase overwrites line ends of the body, and stores the body if it is whole. -/
theorem BodyAt.callEnd (h : BodyAt stream r b n) (hok : b.Ok) (hcap : b.cap = cap) (hpos : 0 < b.used)
    (noBody : r.body = []) (nulled : Nulled (stream.drop n) b.unread) (hround : round r b = .done out) :
    CallEnd cap stream out := by
  obtain ⟨_, hdone, hparsing⟩ := h.round_phase hok hcap hpos
  obtain rfl := HttpRequest.Round.done.inj (hround.symm.trans hdone)
  have href := referenceHead_now h.reference
  have hopen : ∀ f m, referenceHead cstr stream ≠ .complete f m := fun f m hcomplete => by
    cases hcomplete.symm.trans href
  have hscan := parseLine_nulled b.text b.used r.mCheckIndex
  have hle := parseLine_le b.text (hok.unread_length ▸ h.toInBody.index_le)
  rw [HttpRequest.round_body b h.phase] at hround
  generalize parseLine b.text b.used r.mCheckIndex = scan at hscan hle hround
  obtain ⟨line, i, text⟩ := scan
  obtain rfl := HttpRequest.Round.done.inj hround
  dsimp only at hscan hle hparsing ⊢
  obtain ⟨hok', htext⟩ := hok.setText hscan.length_eq.symm
  have hunread : (b.setText text).unread = text.take b.used := congrArg (List.take b.used) htext
  have hkept : Nulled (stream.drop n) (b.setText text).unread := by
    rw [hunread]
    exact nulled.trans (hscan.take b.used)
  have waits : ∀ ret, ret ≠ some .GET_REQUEST →
      Parsing cap stream (r.scanned i line) (b.setText text) →
      CallEnd cap stream ⟨ret, r.scanned i line, b.setText text⟩ := fun ret hret hp =>
    .waiting hret (.body n hok' hcap (hp.bodyAt h.phase href) noBody hkept) hopen
  by_cases hbad : line = .LINE_BAD
  · rw [if_pos hbad] at hparsing ⊢
    exact waits (some .BAD_REQUEST) (by simp) hparsing
  · rw [if_neg hbad] at hparsing ⊢
    rw [htext] at hparsing ⊢
    change Parsing cap stream ((r.scanned i line).parseContent text).2 (b.setText text) at hparsing
    change CallEnd cap stream
      ⟨((r.scanned i line).parseContent text).1, ((r.scanned i line).parseContent text).2, b.setText text⟩
    rcases HttpRequest.parseContent_cases (r.scanned i line) text with
      ⟨_, hcontent⟩ | ⟨_, hcontent⟩ | ⟨hnonneg, hwhole, hcontent⟩
    all_goals rw [hcontent] at hparsing ⊢
    · exact waits (some .NO_REQUEST) (by simp) hparsing
    · exact waits none (by simp) hparsing
    · have hlen : r.contentLength.toNat ≤ b.used := by
        have hwhole : r.contentLength ≤ i := hwhole
        omega
      have hbody : Nulled ((stream.drop n).take r.contentLength.toNat) (text.take r.contentLength.toNat) := by
        have htake := hkept.take r.contentLength.toNat
        rwa [hunread, List.take_take, min_eq_left hlen] at htake
      refine .served rfl rfl (.withBody r.toHead n _ _ href (List.take_prefix ..) ?_ hbody)
      have hnonneg : 0 ≤ r.contentLength := hnonneg
      have hsize : b.unread.length = (stream.drop n).length := nulled.length_eq.symm
      rw [hok.unread_length] at hsize
      rw [List.length_take]
      omega

theorem Unserved.round (h : Unserved cap stream r b) (hpos : 0 < b.used) :
    match round r b with
    | .again r' b' => Unserved cap stream r' b'
    | .done out => CallEnd cap stream out := by
  cases h with
  | head n done ok cap_eq openAt noBody =>
    have hway := HttpRequest.headRound ok openAt.toInHead
    generalize HttpRequest.round r b = o at hway
    cases hway with
    | unended line i scanned open_ =>
      have hopen' : OpenAt stream (r.scanned i line) b n done :=
        { openAt with toInHead := ⟨scanned, openAt.phase⟩ }
      refine .waiting (by simp) (.head n done ok cap_eq hopen' noBody) fun f m hcomplete => ?_
      cases hcomplete.symm.trans (openAt.incomplete open_)
    | malformed i scanned bad =>
      have reference : ∀ v, referenceHead cstr (stream ++ v) = .rejected := fun v => by
        rw [openAt.reference]
        exact resume_malformed (bad.append v) _ _ _
      refine .waiting (by simp) (.refused ok cap_eq (.lineEnd openAt.phase scanned bad) reference)
        fun f m hcomplete => ?_
      cases hcomplete.symm.trans (referenceHead_now reference)
    | refused l rest line state rules out left =>
      have reference : ∀ v, referenceHead cstr (stream ++ v) = .rejected := fun v => by
        rw [openAt.reference, line.append_eq, state, resume_request line.clean, rules]
      refine .waiting (by simp [left.ret])
        (.refused left.ok (left.cap_eq.trans cap_eq) left.refused reference) fun f m hcomplete => ?_
      cases hcomplete.symm.trans (referenceHead_now reference)
    | accepted l rest line state method url version rules b' consumed =>
      have haccepted := openAt.accepted line state rules consumed
      exact .head _ _ consumed.ok (consumed.cap_eq.trans cap_eq) haccepted noBody
    | field l rest line state text b' consumed =>
      exact .head _ _ consumed.ok (consumed.cap_eq.trans cap_eq) (openAt.field line state text consumed) noBody
    | complete l rest line state empty noLength b' consumed =>
      refine .served rfl rfl ?_
      have hsent : Sent stream (r.toHead, []) :=
        .plain _ _ (referenceHead_now (openAt.complete line state empty noLength))
      rwa [← noBody] at hsent
    | body l rest line state empty hasBody b' consumed =>
      have hbody := openAt.body line state empty hasBody consumed
      refine .body _ consumed.ok (consumed.cap_eq.trans cap_eq) hbody noBody ?_
      rw [hbody.kept (Or.inr rfl)]
      exact .refl _
  | refused ok cap_eq refused reference =>
    obtain ⟨out, hdone, left⟩ := HttpRequest.refusedRound ok refused
    rw [hdone]
    refine .waiting (fun hget => ?_) (.refused left.ok (left.cap_eq.trans cap_eq) left.refused reference)
      fun f m hcomplete => ?_
    · have hret := left.ret
      rw [hget] at hret
      split at hret <;> cases hret
    · cases hcomplete.symm.trans (referenceHead_now reference)
  | body n ok cap_eq bodyAt noBody nulled =>
    obtain ⟨out, hdone, _⟩ := bodyAt.round_phase ok cap_eq hpos
    rw [hdone]
    exact bodyAt.callEnd ok cap_eq hpos noBody nulled hdone

theorem Unserved.call (h : Unserved cap stream r b) : CallEnd cap stream (processRead r b) := by
  have hending := (HttpRequest.rounds_invariant (I := Unserved cap stream) r b
    (fun r b r' b' hmem hr hround => by
      have hnext := hr.round (HttpRequest.used_pos_of_mem hmem)
      rwa [hround] at hnext) h).2
  cases hending with
  | drained r' b' inv empty hout =>
    rw [hout]
    exact .waiting (by simp) inv (inv.drained empty)
  | returned r' b' inv pos mem hround =>
    have hnext := inv.round pos
    rwa [hround] at hnext

/-- More bytes of the stream, wherever the unread ones lie. -/
theorem Unserved.append (h : Unserved cap stream r b) {b' : FixedBuffer} (hok : b'.Ok) (hcap : b'.cap = b.cap)
    (hunread : b'.unread = b.unread ++ c) : Unserved cap (stream ++ c) r b' := by
  cases h with
  | head n done ok cap_eq openAt noBody =>
    exact .head n done hok (hcap.trans cap_eq) (openAt.append hunread) noBody
  | refused ok cap_eq refused reference =>
    refine .refused hok (hcap.trans cap_eq) (hunread ▸ refused.append c) fun v => ?_
    rw [List.append_assoc, reference]
  | body n ok cap_eq bodyAt noBody nulled =>
    refine .body n hok (hcap.trans cap_eq) (bodyAt.append hunread) noBody ?_
    rw [hunread, List.drop_append_of_le_length bodyAt.le]
    exact nulled.append c

end
end Knpnl.Http
