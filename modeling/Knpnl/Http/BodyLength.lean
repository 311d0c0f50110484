import Mathlib.Data.List.Infix
import Knpnl.Http.Phases

/-!
# The length that a head announces

`contentLength` is whatever `atol` makes of the header. A length over the limit is logged, and a
negative one is at most any index, so `body.assign` is given it. Both happen as soon as the body
state is processed, unless the first line end behind the head is malformed.
-/
namespace Knpnl.Http

open Lib.CString Lib.Feed
open Base (FixedBuffer)
open HttpRequest (Called Round round rounds processRead)

/-- `parseContent` is called with a length within the limit, on a line that ends at `i`. If the
body is assigned, its bytes are in the buffer. -/
structure LengthOk (r : HttpRequest) (b : FixedBuffer) (i : Nat) : Prop where
  limit : r.contentLength ≤ 1024
  assigned : r.contentLength ≤ i → 0 ≤ r.contentLength ∧ r.contentLength ≤ b.used

/-- What is required of a round: nothing, unless it processes the body state. -/
def LengthOkIn (r : HttpRequest) (b : FixedBuffer) : Prop :=
  r.mCheckState = .CHECK_STATE_BODY → (parseLine b.text b.used r.mCheckIndex).1 ≠ .LINE_BAD →
    LengthOk r b (parseLine b.text b.used r.mCheckIndex).2.1

/-- In every round of every call, as the chunks come. -/
def LengthsOk (mem : Bytes) (chunks : List Bytes) : Prop :=
  ∀ pre c, (pre ++ [c]) <+: chunks →
    let s := feed Called.receive (.start mem) pre
    ∀ p ∈ rounds s.req (s.buf.append c).buf, LengthOkIn p.1 p.2

def WithinLimit (f : Head) : Prop := 0 ≤ f.contentLength ∧ f.contentLength ≤ 1024

/-- A head that announces a body has ended before the last byte of `stream`, and what follows does
not begin with a line whose end is malformed. -/
def BodySeen (stream : Bytes) (f : Head) : Prop :=
  ∃ n < stream.length, referenceHead cstr stream = .body f n ∧ ¬ Malformed (stream.drop n)

section
variable {cap : Nat} {stream : Bytes} {r : HttpRequest} {b : FixedBuffer} {f : Head}

theorem lengthOkIn_iff (hok : b.Ok) (hin : InBody r b.unread) :
    LengthOkIn r b ↔ (¬ Malformed b.unread → WithinLimit r.toHead) := by
  have within : ∀ i ≤ b.used, LengthOk r b i ↔ WithinLimit r.toHead := by
    intro i hi
    constructor
    · rintro ⟨limit, assigned⟩
      refine ⟨?_, limit⟩
      by_contra hneg
      have := (assigned (by omega)).1
      omega
    · exact fun ⟨hnonneg, limit⟩ => ⟨limit, fun hle => ⟨hnonneg, by omega⟩⟩
  have hused := hok.unread_length
  unfold LengthOkIn
  cases scanEnd hok hin.toScanned with
  | unended line incomplete open_ scanned _ hscan =>
    have hgood : ¬ Malformed b.unread := fun hbad => hbad.not_unended open_
    simp [hscan, hin.phase, incomplete.2, hgood, within _ (hused ▸ scanned.index_le)]
  | malformed i bad _ _ hscan => simp [hscan, bad]
  | ended l rest junk hline _ htext hscan =>
    have hgood : ¬ Malformed b.unread := by
      rw [hline.unread]
      exact not_malformed_ended hline.clean rest
    have hle : l.length + 2 ≤ b.used := by
      rw [← hused, hline.unread]
      simp
    simp [hscan, hin.phase, hgood, within _ hle]

/-- A round that processes the body state has seen bytes behind the head. -/
theorem Parsing.bodySeen (h : Parsing cap stream r b) (hpos : 0 < b.used)
    (hst : r.mCheckState = .CHECK_STATE_BODY) : InBody r b.unread ∧
      (¬ Malformed b.unread → BodySeen stream r.toHead) := by
  obtain ⟨hok, hcap, phase⟩ := h
  cases phase with
  | head n done openAt => rcases openAt.phase with h | h <;> cases h.symm.trans hst
  | refused refused refusedAt reference => rcases refused.phase with h | h <;> cases h.symm.trans hst
  | success state => cases state.symm.trans hst
  | body n bodyAt =>
    have hused := hok.unread_length
    have hsize := bodyAt.size
    refine ⟨bodyAt.toInBody, fun hgood =>
      ⟨n, by omega, referenceHead_now bodyAt.reference, fun hbad => hgood ?_⟩⟩
    rw [bodyAt.kept (Or.inl ⟨[], by rwa [List.append_nil]⟩)]
    exact hbad

/-- A round that returns while the head is open finds no body behind it. -/
theorem OpenAt.not_body_of_done {n : Nat} {done : List Bytes} (h : OpenAt stream r b n done) (hok : b.Ok)
    {out : Called} (hround : round r b = .done out) (m : Nat) : referenceHead cstr stream ≠ .body f m := by
  have hway := HttpRequest.headRound hok h.toInHead
  rw [hround] at hway
  intro hbody
  have href := h.reference []
  rw [List.append_nil, List.append_nil, hbody] at href
  cases hway with
  | unended line i scanned open_ => cases href.trans (resume_unendedLine open_ _ _ _)
  | malformed i scanned bad => cases href.trans (resume_malformed bad _ _ _)
  | refused l rest line state rules out left =>
    rw [line.unread, state, resume_request line.clean, rules] at href
    cases href
  | complete l rest line state empty noBody b' consumed =>
    have hdone := h.complete line state empty noBody []
    rw [List.append_nil, hbody] at hdone
    cases hdone

/-- The last round of the first call that finds a body behind the head. -/
theorem Entering.exists_bodyRound (h : Entering stream r b) (hseen : BodySeen stream f) :
    ∃ p ∈ rounds r b, p.1.toHead = f ∧ p.2.Ok ∧ InBody p.1 p.2.unread ∧ ¬ Malformed p.2.unread := by
  obtain ⟨n, hn, hbody, hgood⟩ := hseen
  have hending := HttpRequest.rounds_invariant r b (fun _ _ _ _ _ hinv hround => hinv.again hround) h
  cases hending.2 with
  | drained r' b' inv empty hout =>
    cases inv with
    | head m done ok openAt =>
      have href := openAt.reference []
      rw [List.append_nil, ok.unread_eq_nil empty, hbody] at href
      cases href.trans (resume_unended clean_nil)
    | body m ok bodyAt index =>
      obtain ⟨_, rfl⟩ := HeadOutcome.body.inj ((referenceHead_now bodyAt.reference).symm.trans hbody)
      have hsize := bodyAt.size
      rw [ok.unread_eq_nil empty, List.length_nil] at hsize
      omega
  | returned r' b' inv pos mem hround =>
    cases inv with
    | head m done ok openAt => exact absurd hbody (openAt.not_body_of_done ok hround n)
    | body m ok bodyAt index =>
      obtain ⟨hf, rfl⟩ := HeadOutcome.body.inj ((referenceHead_now bodyAt.reference).symm.trans hbody)
      refine ⟨(r', b'), mem, hf, ok, bodyAt.toInBody, ?_⟩
      rw [bodyAt.kept (Or.inr index)]
      exact hgood

/-- What has been seen of a body was there before, or the call is the first to see it. -/
theorem Parsing.seen_before {s : Called} {c : Bytes} (h : Parsing cap stream s.req s.buf) (hc : s.Accepts c)
    (hseen : BodySeen (stream ++ c) f) : BodySeen stream f ∨
      Entering (stream ++ c) s.req (s.buf.append c).buf := by
  obtain ⟨n, hn, hbody, hgood⟩ := hseen
  have before : ∀ m < stream.length, (∀ v, referenceHead cstr (stream ++ v) = .body s.req.toHead m) →
      BodySeen stream f := by
    intro m hm reference
    obtain ⟨rfl, rfl⟩ := HeadOutcome.body.inj ((reference c).symm.trans hbody)
    refine ⟨m, hm, referenceHead_now reference, fun hbad => hgood ?_⟩
    rw [List.drop_append_of_le_length hm.le]
    exact hbad.append c
  have happ := h.ok.append c
  have hunread := happ.unread_of_ret hc
  cases h.phase with
  | head m done openAt => exact Or.inr (.head m done happ.ok (openAt.append hunread))
  | refused refused refusedAt reference => cases (reference c).symm.trans hbody
  | body m bodyAt =>
    rcases Nat.lt_or_ge m stream.length with hlt | hge
    · exact Or.inl (before m hlt bodyAt.reference)
    · have hindex := bodyAt.index_le
      have hsize := bodyAt.size
      exact Or.inr (.body m happ.ok (bodyAt.append hunread) (by omega))
  | success state scanned reference =>
    rcases reference with ⟨m, reference⟩ | ⟨m, hm, reference⟩
    · cases (reference c).symm.trans hbody
    · exact Or.inl (before m hm reference)

end

/-- A length is right wherever the body state is processed if and only if every head whose body is
seen by some call announces a length within the limit. -/
theorem lengthsOk_iff (mem : Bytes) (hmem : mem.length < 2 ^ 31) (chunks : List Bytes)
    (hfeed : Feeds Called.receive Called.Accepts (.start mem) chunks) :
    LengthsOk mem chunks ↔
      ∀ pre, pre <+: chunks → ∀ f, BodySeen pre.flatten f → WithinLimit f := by
  constructor
  · intro hok pre
    induction pre using List.reverseRecOn with
    | nil => rintro - f ⟨n, hn, -⟩; cases hn
    | append_singleton pre c ih =>
      intro hpre f hseen
      obtain ⟨hrun, hc⟩ := feeds_concat.mp (hfeed.of_prefix hpre)
      have hparsing := Parsing.run hmem hrun
      rw [List.flatten_concat] at hseen
      rcases hparsing.seen_before hc hseen with hbefore | hentering
      · exact ih ((List.prefix_append _ _).trans hpre) f hbefore
      · obtain ⟨p, hmem, hf, hpok, hin, hgood⟩ := hentering.exists_bodyRound hseen
        exact hf ▸ (lengthOkIn_iff hpok hin).mp (hok pre c hpre p hmem) hgood
  · intro hwithin pre c hpre s p hp
    obtain ⟨hrun, hc⟩ := feeds_concat.mp (hfeed.of_prefix hpre)
    have hparsing := ((Parsing.run hmem hrun).append hc).rounds_ending.1 p hp
    intro hst
    obtain ⟨hin, hseen⟩ := hparsing.bodySeen (HttpRequest.used_pos_of_mem hp) hst
    refine (lengthOkIn_iff hparsing.ok hin).mpr (fun hgood => ?_) hst
    rw [← List.flatten_concat] at hseen
    exact hwithin _ hpre _ (hseen hgood)

/-- A body whose last byte comes later. -/
theorem lengthsOk_iff_split :
    LengthsOk (List.replicate 64 0) [postHead "3" ++ ascii "ab", ascii "c"] := by
  refine (lengthsOk_iff (List.replicate 64 0) (by decide) [postHead "3" ++ ascii "ab", ascii "c"]
    (by decide +kernel)).mpr fun pre hpre f ⟨n, _, href, _⟩ => ?_
  -- only the head's end shows in a prefix of the two chunks
  have hall : ∀ p ∈ [postHead "3" ++ ascii "ab", ascii "c"].inits,
      referenceHead cstr p.flatten = .incomplete ∨ referenceHead cstr p.flatten = .body
        { method := some .POST, url := ascii "/", version := ascii "HTTP/1.1", contentLength := 3 } 38 := by
    decide +kernel
  rcases hall pre ((List.mem_inits _ _).mpr hpre) with hnone | hbody
  · cases hnone.symm.trans href
  · obtain ⟨rfl, _⟩ := HeadOutcome.body.inj (hbody.symm.trans href)
    exact ⟨by decide, by decide⟩

/-- Whatever the stream, and however it is cut. -/
def AlwaysLengthsOk : Prop :=
  ∀ (mem : Bytes) (chunks : List Bytes), mem.length = FixedBuffer.kBufferSize →
    Feeds Called.receive Called.Accepts (.start mem) chunks → LengthsOk mem chunks

instance (r : HttpRequest) (b : FixedBuffer) (i : Nat) : Decidable (LengthOk r b i) :=
  decidable_of_iff (r.contentLength ≤ 1024 ∧
    (r.contentLength ≤ i → 0 ≤ r.contentLength ∧ r.contentLength ≤ b.used))
    ⟨fun h => ⟨h.1, h.2⟩, fun h => ⟨h.limit, h.assigned⟩⟩

instance (r : HttpRequest) (b : FixedBuffer) : Decidable (LengthOkIn r b) :=
  inferInstanceAs (Decidable (_ → _ → _))

/-- One byte behind a head that announces `-1`: `body.assign` throws. -/
theorem alwaysLengthsOk_negative : ¬ AlwaysLengthsOk := by
  intro hclaim
  have hok := hclaim (List.replicate 1024 0) [ascii "GET / HTTP/1.1\r\nContent-length: -1\r\n\r\nx"]
    List.length_replicate (by decide +kernel) [] _ (List.prefix_refl _)
  revert hok
  decide +kernel

end Knpnl.Http
