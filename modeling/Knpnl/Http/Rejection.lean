import Knpnl.Http.Renewal

/-!
# After a rejection

A call that returns `BAD_REQUEST` consumes nothing of the line it rejects and restores nothing of
it. The next call scans on from where the last one stopped, and rejects the line again or waits: a
malformed line end is still there, a request line that breaks the rules has lost its blanks, and in
the last state nothing is parsed.
-/
namespace Knpnl.Http

open Lib.CString Lib.Feed
open Base (FixedBuffer)
open HttpRequest (Called Round round processRead)

/-- No later call returns a request. -/
inductive Rejected (r : HttpRequest) (u : Bytes) : Prop where
  | refused (refused : Refused r u)
  | body (inBody : InBody r u) (malformed : Malformed u)
  | success (state : r.mCheckState = .CHECK_STATE_SUCCESS) (scanned : Scanned r.mCheckIndex u)

section
variable {cap : Nat} {stream : Bytes} {r : HttpRequest} {b : FixedBuffer} {out : Called}

/-- More unread bytes do not help. -/
theorem Rejected.append {u : Bytes} (h : Rejected r u) (v : Bytes) : Rejected r (u ++ v) := by
  cases h with
  | refused refused => exact .refused (refused.append v)
  | body inBody malformed => exact .body ⟨inBody.toScanned.append v, inBody.phase⟩ (malformed.append v)
  | success state scanned => exact .success state (scanned.append v)

theorem OpenAt.rejects {n : Nat} {done : List Bytes} (h : OpenAt stream r b n done) (hok : b.Ok)
    (hround : round r b = .done out) (hbad : out.ret = some .BAD_REQUEST) :
    Rejected out.req out.buf.unread := by
  have hway := HttpRequest.headRound hok h.toInHead
  rw [hround] at hway
  cases hway with
  | unended line i scanned open_ => simp at hbad
  | malformed i scanned bad => exact .refused (.lineEnd h.phase scanned bad)
  | refused l rest line state rules out left => exact .refused left.refused
  | complete l rest line state empty noBody b' consumed => simp at hbad

theorem BodyAt.rejects {n : Nat} (h : BodyAt stream r b n) (hok : b.Ok) (hround : round r b = .done out)
    (hbad : out.ret = some .BAD_REQUEST) : Rejected out.req out.buf.unread := by
  obtain ⟨out', hdone, hway⟩ := HttpRequest.bodyRound hok h.toInBody
  obtain rfl := HttpRequest.Round.done.inj (hround.symm.trans hdone)
  cases hway with
  | malformed i scanned le bad => exact .body ⟨scanned, h.phase⟩ bad
  | parsed line b' good ok cap_eq size scanned le kept cutEnd_eq =>
    rcases HttpRequest.parseContent_cases (r.scanned (lineStop b.unread) line) b'.text with
      ⟨_, hcontent⟩ | ⟨_, hcontent⟩ | ⟨_, _, hcontent⟩
    all_goals simp [hcontent] at hbad

/-- The last round of a call that returns `BAD_REQUEST`. -/
theorem Parsing.rejects (h : Parsing cap stream r b) (hround : round r b = .done out)
    (hbad : out.ret = some .BAD_REQUEST) : Rejected out.req out.buf.unread := by
  cases h.phase with
  | head n done openAt => exact openAt.rejects h.ok hround hbad
  | refused refused refusedAt reference =>
    obtain ⟨out', hdone, left⟩ := HttpRequest.refusedRound h.ok refused
    obtain rfl := HttpRequest.Round.done.inj (hround.symm.trans hdone)
    exact .refused left.refused
  | body n bodyAt => exact bodyAt.rejects h.ok hround hbad
  | success state scanned reference =>
    have hway := HttpRequest.successRound h.ok state scanned
    rw [hround] at hway
    cases hway with
    | unended line i scanned open_ => simp at hbad
    | malformed i scanned bad => exact .success state scanned

theorem Parsing.rejected_of_bad (h : Parsing cap stream r b)
    (hbad : (processRead r b).ret = some .BAD_REQUEST) :
    Rejected (processRead r b).req (processRead r b).buf.unread := by
  cases h.rounds_ending.2 with
  | drained r' b' inv empty hout => simp [hout] at hbad
  | returned r' b' inv pos mem hround => exact inv.rejects hround hbad

/-- What a call leaves of a request that has been rejected. -/
structure RejectedCall (out : Called) : Prop where
  ok : out.buf.Ok
  rejected : Rejected out.req out.buf.unread
  ret : out.ret ≠ some .GET_REQUEST

theorem Rejected.call (h : Rejected r b.unread) (hok : b.Ok) : RejectedCall (processRead r b) := by
  by_cases h0 : b.used = 0
  · rw [HttpRequest.processRead_empty h0]
    exact ⟨hok, h, by simp⟩
  have hpos : 0 < b.used := Nat.pos_of_ne_zero h0
  cases h with
  | refused refused =>
    obtain ⟨out, hdone, left⟩ := HttpRequest.refusedRound hok refused
    rw [HttpRequest.processRead_done hpos hdone]
    refine ⟨left.ok, .refused left.refused, ?_⟩
    rw [left.ret]
    split <;> simp
  | body inBody malformed =>
    obtain ⟨out, hdone, hway⟩ := HttpRequest.bodyRound hok inBody
    rw [HttpRequest.processRead_done hpos hdone]
    cases hway with
    | malformed i scanned le bad => exact ⟨hok, .body ⟨scanned, inBody.phase⟩ bad, by simp⟩
    | parsed line b' good ok cap_eq size scanned le kept cutEnd_eq => exact absurd malformed good
  | success state scanned =>
    obtain ⟨hret, left⟩ := processRead_inSuccess hok state scanned
    refine ⟨left.ok, .success left.state left.scanned, ?_⟩
    rw [hret]
    exact fun hget => lineAnswer_ne_get _ (Option.some.inj hget).symm

/-- A chunk that the buffer takes or refuses, and a call. -/
theorem RejectedCall.receive (h : RejectedCall out) (c : Bytes) : RejectedCall (out.receive c) := by
  have happ := h.ok.append c
  refine Rejected.call ?_ happ.ok
  by_cases hfit : c.length ≤ out.buf.cap - out.buf.used
  · rw [(happ.accepts hfit).2]
    exact h.rejected.append c
  · rw [(happ.refuses hfit).2]
    exact h.rejected

theorem RejectedCall.feed (h : RejectedCall out) (chunks : List Bytes) :
    RejectedCall (feed Called.receive out chunks) := by
  induction chunks generalizing out with
  | nil => exact h
  | cons c chunks ih => exact ih (h.receive c)

/-- A chunk that the buffer refuses brings no bytes of the stream. -/
theorem Parsing.append_any (h : Parsing cap stream r b) (c : Bytes) :
    ∃ stream', Parsing cap stream' r (b.append c).buf := by
  have happ := h.ok.append c
  by_cases hfit : c.length ≤ b.cap - b.used
  · exact ⟨stream ++ c, h.append (happ.accepts hfit).1⟩
  · rw [(happ.refuses hfit).2]
    exact ⟨stream, h⟩

theorem parsing_feed {mem : Bytes} (h : mem.length < 2 ^ 31) (chunks : List Bytes) :
    ∃ stream, Parsing mem.length stream (feed Called.receive (.start mem) chunks).req
      (feed Called.receive (.start mem) chunks).buf := by
  induction chunks using List.reverseRecOn with
  | nil => exact ⟨[], .start h⟩
  | append_singleton chunks c ih =>
    obtain ⟨stream, hparsing⟩ := ih
    obtain ⟨stream', hnext⟩ := hparsing.append_any c
    rw [feed_concat]
    exact ⟨stream', hnext.call⟩

/-- Once a call has returned `BAD_REQUEST`, no later call returns `GET_REQUEST`, whatever chunks
are appended. -/
theorem rejection_final {mem : Bytes} (hmem : mem.length < 2 ^ 31) (chunks later : List Bytes)
    (hbad : (feed Called.receive (.start mem) chunks).ret = some .BAD_REQUEST) :
    (feed Called.receive (.start mem) (chunks ++ later)).ret ≠ some .GET_REQUEST := by
  have hrejected : RejectedCall (feed Called.receive (.start mem) chunks) := by
    induction chunks using List.reverseRecOn with
    | nil => cases hbad
    | append_singleton chunks c _ =>
      obtain ⟨stream, hparsing⟩ := parsing_feed hmem chunks
      obtain ⟨stream', hnext⟩ := hparsing.append_any c
      rw [feed_concat] at hbad ⊢
      exact ⟨hnext.call.ok, hnext.rejected_of_bad hbad, fun hget => by cases hbad.symm.trans hget⟩
  rw [feed_append]
  exact (hrejected.feed later).ret

/-- A line end that is malformed, and the rest of a complete request after it. -/
theorem rejection_final_lineFeed :
    (feed Called.receive (.start (List.replicate 1024 0))
      [ascii "GET / HTTP/1.1\n", ascii "GET / HTTP/1.1\r\n\r\n"]).ret ≠ some .GET_REQUEST :=
  rejection_final (by decide +kernel) [ascii "GET / HTTP/1.1\n"] [ascii "GET / HTTP/1.1\r\n\r\n"]
    (by decide +kernel)

end
end Knpnl.Http
