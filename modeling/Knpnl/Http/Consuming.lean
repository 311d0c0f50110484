import Knpnl.Http.KeepAlive
import Knpnl.Http.Phases

/-!
# What a completed request leaves in the buffer

The request line and each header line are consumed when they have been parsed. The body is
stored and stays in the buffer, so the bytes left after a request are those that follow it
exactly when it has no body.
-/
namespace Knpnl.Http

open Lib.CString Lib.Feed
open Base (FixedBuffer)
open HttpRequest (Called Round round rounds processRead)

/-- The stream is the request that has been returned and the unread bytes, unmodified. -/
def ConsumedExactly (stream : Bytes) (out : Called) : Prop :=
  ∃ q : Request, q.WellFormed out.req.toHead ∧ stream = q.bytes ++ out.buf.unread

/-- What a round that returns a request leaves, by what the reference says about its head. -/
inductive Got (stream : Bytes) (out : Called) : Prop where
  | plain (n : Nat) (reference : referenceHead cstr stream = .complete out.req.toHead n)
      (unread : out.buf.unread = stream.drop n)
  | withBody (n : Nat) (hn : n ≤ stream.length) (reference : referenceHead cstr stream = .body out.req.toHead n)
      (size : out.buf.unread.length = stream.length - n)

section
variable {cap : Nat} {stream : Bytes} {r : HttpRequest} {b : FixedBuffer} {out : Called}

/-- A request is returned by the round that ends its head, or by one in the body phase. -/
theorem Parsing.got_of_round (h : Parsing cap stream r b) (hround : round r b = .done out)
    (hget : out.ret = some .GET_REQUEST) : Got stream out := by
  obtain ⟨hok, hcap, phase⟩ := h
  cases phase with
  | head n done openAt =>
    have hway := HttpRequest.headRound hok openAt.toInHead
    rw [hround] at hway
    cases hway with
    | unended line i scanned open_ => cases hget
    | malformed i scanned bad => cases hget
    | refused l rest line state rules out left => cases left.ret.symm.trans hget
    | complete l rest line state empty noBody b' consumed =>
      obtain ⟨hle, _, hrest⟩ := openAt.next line
      exact .plain (n + (l.length + 2)) (referenceHead_now (openAt.complete line state empty noBody))
        (consumed.unread.trans hrest)
  | refused refused refusedAt reference =>
    obtain ⟨out', hdone, left⟩ := HttpRequest.refusedRound hok refused
    obtain rfl := Round.done.inj (hround.symm.trans hdone)
    have hret := left.ret
    rw [hget] at hret
    split at hret <;> cases hret
  | body n bodyAt =>
    obtain ⟨out', hdone, hway⟩ := HttpRequest.bodyRound hok bodyAt.toInBody
    obtain rfl := Round.done.inj (hround.symm.trans hdone)
    cases hway with
    | malformed i scanned le bad => cases hget
    | parsed line b' good ok cap_eq size scanned le kept cutEnd_eq =>
      refine .withBody n bodyAt.le ?_ (size.trans bodyAt.size)
      rw [HttpRequest.parseContent_head]
      exact referenceHead_now bodyAt.reference
  | success state scanned reference =>
    have hway := HttpRequest.successRound hok state scanned
    rw [hround] at hway
    cases hway with
    | unended line i scanned open_ => cases hget
    | malformed i scanned bad => cases hget

theorem Parsing.got (h : Parsing cap stream r b) (hget : (processRead r b).ret = some .GET_REQUEST) :
    Got stream (processRead r b) := by
  cases h.rounds_ending.2 with
  | drained r' b' inv empty hout =>
    rw [hout] at hget
    cases hget
  | returned r' b' inv pos mem hround => exact inv.got_of_round hround hget

/-- Exactly the bytes of a request without body are consumed. -/
theorem Got.plain_of_consumed (h : Got stream out) (hconsumed : ConsumedExactly stream out) :
    ∃ n, referenceHead cstr stream = .complete out.req.toHead n := by
  cases h with
  | plain n reference unread => exact ⟨n, reference⟩
  | withBody n hn reference size =>
    obtain ⟨q, hwf, hstream⟩ := hconsumed
    have hlen := congrArg List.length hstream
    rw [List.length_append, size] at hlen
    cases hwf with
    | plain complete noBody =>
      rw [hstream, Request.bytes, List.append_assoc,
        referenceHead_append (by simp [complete]), complete] at reference
      cases reference
    | withBody announced =>
      rw [hstream, Request.bytes, List.append_assoc,
        referenceHead_append (by simp [announced.reference]), announced.reference] at reference
      obtain ⟨_, rfl⟩ := HeadOutcome.body.inj reference
      have hpos := announced.nonempty
      simp only [Request.bytes, List.length_append] at hlen
      omega

theorem Got.consumed_of_plain (h : Got stream out) {f : Head} {n : Nat}
    (hplain : referenceHead cstr stream = .complete f n) : ConsumedExactly stream out := by
  cases h with
  | withBody m hm reference size => cases hplain.symm.trans reference
  | plain m reference unread =>
    obtain ⟨hle, htake⟩ := referenceHead_take reference
    refine ⟨⟨stream.take m, []⟩, .plain ?_ rfl, ?_⟩
    · rw [htake, List.length_take, Nat.min_eq_left hle]
    · rw [unread, Request.bytes, List.append_nil, List.take_append_drop]

end

/-- The last call of a run, if it returns a request. -/
theorem got_run {mem : Bytes} (hmem : mem.length < 2 ^ 31) {chunks : List Bytes}
    (hfeed : Feeds Called.receive Called.Accepts (.start mem) chunks)
    (hget : (feed Called.receive (.start mem) chunks).ret = some .GET_REQUEST) :
    Got chunks.flatten (feed Called.receive (.start mem) chunks) := by
  rcases chunks.eq_nil_or_concat with rfl | ⟨pre, c, rfl⟩
  · cases hget
  rw [List.concat_eq_append] at hfeed hget ⊢
  obtain ⟨hpre, hc⟩ := feeds_concat.mp hfeed
  rw [feed_concat] at hget ⊢
  rw [List.flatten_concat]
  exact ((Parsing.run hmem hpre).append hc).got hget

/-- When a call returns a request, what is unread is what follows the request if and only if the
head announces no body. -/
theorem consumedExactly_iff (mem : Bytes) (hmem : mem.length < 2 ^ 31) (chunks : List Bytes)
    (hfeed : Feeds Called.receive Called.Accepts (.start mem) chunks)
    (hget : (feed Called.receive (.start mem) chunks).ret = some .GET_REQUEST) :
    ConsumedExactly chunks.flatten (feed Called.receive (.start mem) chunks) ↔
      ∃ f n, referenceHead cstr chunks.flatten = .complete f n := by
  have hgot := got_run hmem hfeed hget
  constructor
  · intro hconsumed
    obtain ⟨n, hplain⟩ := hgot.plain_of_consumed hconsumed
    exact ⟨_, n, hplain⟩
  · rintro ⟨f, n, hplain⟩
    exact hgot.consumed_of_plain hplain

/-- Two requests in one chunk, the first with its last byte in another. -/
theorem consumedExactly_iff_pipelined :
    ConsumedExactly (ascii "GET / HTTP/1.1\r\n\r\nGET /b")
        (feed Called.receive (.start (List.replicate 64 0))
          [ascii "GET / HTTP/1.1\r\n\r", ascii "\nGET /b"]) :=
  (consumedExactly_iff (List.replicate 64 0) (by decide) [ascii "GET / HTTP/1.1\r\n\r", ascii "\nGET /b"]
    (by decide +kernel) (by decide +kernel)).mpr
    ⟨{ method := some .GET, url := ascii "/", version := ascii "HTTP/1.1" }, 18, by decide +kernel⟩

/-- Whenever a call returns a request, exactly its bytes have been consumed. -/
def AlwaysConsumed : Prop :=
  ∀ (mem : Bytes) (chunks : List Bytes), mem.length = FixedBuffer.kBufferSize →
    Feeds Called.receive Called.Accepts (.start mem) chunks →
    (feed Called.receive (.start mem) chunks).ret = some .GET_REQUEST →
      ConsumedExactly chunks.flatten (feed Called.receive (.start mem) chunks)

/-- The body `abc` stays in the buffer. -/
theorem alwaysConsumed_post : ¬ AlwaysConsumed := by
  intro hclaim
  have hmem : (List.replicate 1024 0 : Bytes).length < 2 ^ 31 := by decide +kernel
  have hfeed : Feeds Called.receive Called.Accepts (.start (List.replicate 1024 0))
      [postHead "3" ++ ascii "abc"] := by decide +kernel
  have hget : (feed Called.receive (.start (List.replicate 1024 0)) [postHead "3" ++ ascii "abc"]).ret =
      some .GET_REQUEST := by decide +kernel
  have hconsumed := hclaim _ _ List.length_replicate hfeed hget
  obtain ⟨n, hplain⟩ := (got_run hmem hfeed hget).plain_of_consumed hconsumed
  have hbody : referenceHead cstr [postHead "3" ++ ascii "abc"].flatten = .body
      { method := some .POST, url := ascii "/", version := ascii "HTTP/1.1", contentLength := 3 } 38 := by
    decide +kernel
  cases hplain.symm.trans hbody

end Knpnl.Http
