import Knpnl.Http.Rounds
import Knpnl.Http.Server

/-!
# Requests on a keep-alive connection

`Init` leaves the parser in the state it reached, and a parser that has returned a
request never returns another. So a session hands at most one request to the user:
all requests of a sequence are answered exactly when there is at most one, and its
body has no line end but perhaps one at its end.
-/
namespace Knpnl.Http

open Lib.CString Lib.Feed
open Base (FixedBuffer)
open Net (TcpConnection Socket)
open HttpRequest (Called processRead)

namespace HttpRequest

variable {req req' : HttpRequest} {buf buf' : FixedBuffer} {out : Called}

theorem parseHeader_get (text : Bytes) (h : (parseHeader req text).1 = .GET_REQUEST) :
    (parseHeader req text).2.mCheckState = .CHECK_STATE_SUCCESS := by
  unfold parseHeader at h ⊢
  dsimp only at h ⊢
  by_cases hend : text.getD 0 0 = 0
  · rw [if_pos hend] at h ⊢
    by_cases hlen : req.contentLength = 0
    · rw [if_neg (not_not.mpr hlen)]
    · rw [if_pos hlen] at h
      cases h
  · -- no header line ends the head
    rw [if_neg hend] at h
    repeat' split at h
    all_goals cases h

theorem parseContent_get (text : Bytes) (h : (parseContent req text).1 = some .GET_REQUEST) :
    (parseContent req text).2.mCheckState = .CHECK_STATE_SUCCESS := by
  unfold parseContent at h ⊢
  repeat' split
  all_goals simp_all

theorem dispatch_get (h : dispatch req buf = .done out) (hget : out.ret = some .GET_REQUEST) :
    out.req.mCheckState = .CHECK_STATE_SUCCESS := by
  unfold dispatch at h
  cases hst : req.mCheckState with
  | CHECK_STATE_REQUEST =>
    simp only [hst] at h
    split at h
    · obtain rfl := Round.done.inj h
      cases hget
    · cases h
  | CHECK_STATE_HEADER =>
    simp only [hst] at h
    have hhead := @parseHeader_get req buf.text
    split at h
    · obtain rfl := Round.done.inj h
      cases hget
    · rename_i heq
      obtain rfl := Round.done.inj h
      rw [heq] at hhead
      exact hhead rfl
    · cases h
  | CHECK_STATE_BODY =>
    simp only [hst] at h
    obtain rfl := Round.done.inj h
    exact parseContent_get _ hget
  | CHECK_STATE_SUCCESS =>
    simp only [hst] at h
    cases h

theorem round_get (h : round req buf = .done out) (hget : out.ret = some .GET_REQUEST) :
    out.req.mCheckState = .CHECK_STATE_SUCCESS := by
  unfold round at h
  rcases parseLine buf.text buf.used req.mCheckIndex with ⟨line, i, text⟩
  dsimp only at h
  split at h
  · obtain rfl := Round.done.inj h
    cases hget
  · split at h
    · obtain rfl := Round.done.inj h
      cases hget
    · exact dispatch_get h hget

/-- A round of a parser that has returned a request returns nothing and changes no state. -/
theorem round_success (hst : req.mCheckState = .CHECK_STATE_SUCCESS) :
    (∀ out, round req buf = .done out →
      out.ret ≠ some .GET_REQUEST ∧ out.req.mCheckState = .CHECK_STATE_SUCCESS) ∧
    ∀ req' buf', round req buf = .again req' buf' → req'.mCheckState = .CHECK_STATE_SUCCESS := by
  unfold round
  rcases parseLine buf.text buf.used req.mCheckIndex with ⟨line, i, text⟩
  dsimp only
  split
  · refine ⟨fun out h => ?_, fun _ _ h => by cases h⟩
    obtain rfl := Round.done.inj h
    exact ⟨by simp, hst⟩
  · split
    · refine ⟨fun out h => ?_, fun _ _ h => by cases h⟩
      obtain rfl := Round.done.inj h
      exact ⟨by simp, hst⟩
    · have hd := dispatch_success (req.scanned i line) (buf.setText text) hst
      simp only [scanned] at hd
      rw [hd]
      refine ⟨fun out h => (by cases h), fun req' buf' h => ?_⟩
      obtain ⟨rfl, rfl⟩ := Round.again.inj h
      exact hst

theorem processRead_get (req : HttpRequest) (buf : FixedBuffer)
    (hget : (processRead req buf).ret = some .GET_REQUEST) :
    (processRead req buf).req.mCheckState = .CHECK_STATE_SUCCESS := by
  have hending := (rounds_invariant (I := fun _ _ => True) req buf (fun _ _ _ _ _ _ _ => trivial) trivial).2
  cases hending with
  | drained r b _ _ hout =>
    rw [hout] at hget
    cases hget
  | returned r b _ _ _ hround => exact round_get hround hget

/-- No later call returns a request. -/
theorem processRead_success (req : HttpRequest) (buf : FixedBuffer)
    (hst : req.mCheckState = .CHECK_STATE_SUCCESS) :
    (processRead req buf).ret ≠ some .GET_REQUEST ∧
      (processRead req buf).req.mCheckState = .CHECK_STATE_SUCCESS := by
  have hending := (rounds_invariant (I := fun r _ => r.mCheckState = .CHECK_STATE_SUCCESS) req buf
    (fun _ _ r' b' _ h hround => (round_success h).2 r' b' hround) hst).2
  cases hending with
  | drained r b inv _ hout =>
    rw [hout]
    exact ⟨by simp, inv⟩
  | returned r b inv _ _ hround => exact (round_success inv).1 _ hround

end HttpRequest

namespace Session

variable {s : Session} {m : Message}

/-- The reader's side of a session. -/
def called (s : Session) : Called := ⟨s.ret, s.conn.mContext.Request, s.conn.mReadBuffer⟩

/-- A message that completes no request does to the reader what `processRead` does. -/
theorem step_of_not_get (h : (s.called.receive m.chunk).ret ≠ some .GET_REQUEST) :
    (s.step m).called = s.called.receive m.chunk ∧ (s.step m).calls = s.calls := by
  have hread : processRead s.conn.mContext.Request (s.read m.chunk).mReadBuffer =
      s.called.receive m.chunk := rfl
  have hcontext : (s.read m.chunk).mContext = s.conn.mContext := rfl
  generalize hout : s.called.receive m.chunk = out at h hread
  obtain ⟨ret, req, buf⟩ := out
  unfold step called reply HttpServer.onMessageCallback
  simp only [hcontext, hread]
  cases ret with
  | none => simp
  | some code =>
    cases code with
    | GET_REQUEST => exact absurd rfl h
    | NO_REQUEST => simp
    | BAD_REQUEST =>
      simp [HttpServer.respond, TcpConnection.SetAlive]
    | _ => simp

/-- A message that completes a request hands it to the user, and rewinds the parser. -/
theorem step_of_get (h : (s.called.receive m.chunk).ret = some .GET_REQUEST) :
    (s.step m).called = { s.called.receive m.chunk with req := (s.called.receive m.chunk).req.Init } ∧
      (s.step m).calls = s.calls ++ [(s.called.receive m.chunk).req.fields] := by
  have hread : processRead s.conn.mContext.Request (s.read m.chunk).mReadBuffer =
      s.called.receive m.chunk := rfl
  have hcontext : (s.read m.chunk).mContext = s.conn.mContext := rfl
  generalize hout : s.called.receive m.chunk = out at h hread
  obtain ⟨ret, req, buf⟩ := out
  dsimp only at h
  subst h
  unfold step called reply HttpServer.onMessageCallback
  simp only [hcontext, hread]
  rw [TcpConnection.mContext_Send, TcpConnection.mReadBuffer_Send]
  split <;> simp [HttpServer.respond, TcpConnection.SetAlive, TcpConnection.setFile]

theorem run_concat (s : Session) (ms : List Message) (m : Message) :
    s.run (ms ++ [m]) = (s.run ms).step m := by
  simp [run]

end Session

namespace Session

/-- The user has been called at most once, and then the parser has returned a request. -/
def OnceOnly (s : Session) : Prop :=
  s.calls = [] ∨ s.calls.length = 1 ∧ s.called.req.mCheckState = .CHECK_STATE_SUCCESS

theorem OnceOnly.step {s : Session} (h : s.OnceOnly) (m : Message) : (s.step m).OnceOnly := by
  have hsuccess := HttpRequest.processRead_success s.called.req (s.called.buf.append m.chunk).buf
  by_cases hget : (s.called.receive m.chunk).ret = some .GET_REQUEST
  · obtain ⟨hcalled, hcalls⟩ := step_of_get hget
    rcases h with hnone | ⟨_, hst⟩
    · right
      rw [hcalls, hnone, hcalled]
      exact ⟨rfl, HttpRequest.processRead_get _ _ hget⟩
    · exact absurd hget (hsuccess hst).1
  · obtain ⟨hcalled, hcalls⟩ := step_of_not_get hget
    rcases h with hnone | ⟨hone, hst⟩
    · exact Or.inl (hcalls.trans hnone)
    · right
      rw [hcalls, hcalled]
      exact ⟨hone, (hsuccess hst).2⟩

theorem OnceOnly.run {s : Session} (h : s.OnceOnly) (ms : List Message) : (s.run ms).OnceOnly := by
  induction ms generalizing s with
  | nil => exact h
  | cons m ms ih => exact ih (h.step m)

theorem OnceOnly.calls_le {s : Session} (h : s.OnceOnly) : s.calls.length ≤ 1 := by
  rcases h with h | ⟨h, _⟩
  · simp [h]
  · omega

/-- After its one call the user is not called again. -/
theorem OnceOnly.calls_run {s : Session} (h : s.OnceOnly) (hone : s.calls.length = 1)
    (ms : List Message) : (s.run ms).calls = s.calls := by
  induction ms generalizing s with
  | nil => rfl
  | cons m ms ih =>
    have hcalls : (s.step m).calls = s.calls := by
      by_cases hget : (s.called.receive m.chunk).ret = some .GET_REQUEST
      · have hle := (h.step m).calls_le
        rw [(step_of_get hget).2, List.length_append, hone] at hle
        simp at hle
      · exact (step_of_not_get hget).2
    exact (ih (h.step m) (by rw [hcalls, hone])).trans hcalls

end Session

structure Request where
  head : Bytes
  body : Bytes

def Request.bytes (q : Request) : Bytes := q.head ++ q.body

/-- A head that is parsed to its end, which sets the fields `f`, and the body it announces. -/
inductive Request.WellFormed (q : Request) (f : Head) : Prop where
  | plain (reference : referenceHead cstr q.head = .complete f q.head.length) (noBody : q.body = [])
  | withBody (announced : Announced q.head q.body f)

/-- What a new parser makes of the request alone, read at once. -/
def Request.alone (mem : Bytes) (q : Request) : Option (Head × Bytes) :=
  let out := (Called.start mem).receive q.bytes
  if out.ret = some .GET_REQUEST then some out.req.fields else none

section
variable {cap n : Nat} {s : Called} {seen c : Bytes} {q : Request} {f : Head}

/-- A chunk on which the reference decides nothing. -/
theorem OpenHead.stay (h : OpenHead cap s n seen) (hc : s.Accepts c)
    (hopen : referenceHead cstr (seen ++ c) = .incomplete) :
    (s.receive c).ret = some .NO_REQUEST ∧ ∃ n', OpenHead cap (s.receive c) n' (seen ++ c) := by
  cases h.receive hc with
  | waiting n' ret next => exact ⟨ret, n', next⟩
  | rejected ret phase reference => cases hopen.symm.trans (referenceHead_now reference)
  | complete m hm ret state noBody ok cap_eq unread body reference =>
    cases hopen.symm.trans (referenceHead_now reference)
  | body req₁ buf₁ m hm again state index hasBody ok cap_eq unread noBody reference =>
    cases hopen.symm.trans (referenceHead_now reference)

/-- The chunk that brings the end of a head without body. -/
theorem OpenHead.last (h : OpenHead cap s n seen) (hc : s.Accepts c)
    (hdone : referenceHead cstr (seen ++ c) = .complete f (seen ++ c).length) :
    (s.receive c).ret = some .GET_REQUEST ∧ (s.receive c).req.fields = (f, []) := by
  cases h.receive hc with
  | waiting n' ret next => cases hdone.symm.trans next.incomplete
  | rejected ret phase reference => cases hdone.symm.trans (referenceHead_now reference)
  | complete m hm ret state noBody ok cap_eq unread body reference =>
    obtain ⟨hf, _⟩ := HeadOutcome.complete.inj (hdone.symm.trans (referenceHead_now reference))
    exact ⟨ret, by rw [HttpRequest.fields, body, hf]⟩
  | body req₁ buf₁ m hm again state index hasBody ok cap_eq unread noBody reference =>
    cases hdone.symm.trans (referenceHead_now reference)

/-- Not all bytes of `q` have come, and no request has been returned. -/
inductive Request.Pending (cap : Nat) (q : Request) (f : Head) (s : Called) (seen : Bytes) : Prop where
  | plain (reference : referenceHead cstr q.head = .complete f q.head.length) (noBody : q.body = [])
      (n : Nat) (openHead : OpenHead cap s n seen)
  | withBody (announced : Announced q.head q.body f) (awaiting : Awaiting cap q.head q.body f s seen)

theorem Request.pending_start {mem : Bytes} (hmem : mem.length < 2 ^ 31) (hwf : q.WellFormed f)
    (hfit : q.bytes.length ≤ mem.length) : q.Pending mem.length f (.start mem) [] := by
  cases hwf with
  | plain reference noBody => exact .plain reference noBody 0 (openHead_start hmem)
  | withBody announced =>
    refine .withBody announced (awaiting_run hmem announced ?_ [] (List.nil_prefix) ?_)
    · simpa [Request.bytes] using hfit
    · have := announced.nonempty
      simp only [List.flatten_nil, List.length_nil, List.length_append]
      omega

namespace Request.Pending

theorem accepts (h : q.Pending cap f s seen) (hpre : (seen ++ c) <+: q.bytes)
    (hfit : q.bytes.length ≤ cap) : s.Accepts c := by
  cases h with
  | plain reference noBody n openHead =>
    have := hpre.length_le
    rw [List.length_append] at this
    exact openHead.accepts (by omega)
  | withBody announced awaiting =>
    exact (awaiting.enter announced (by simpa [Request.bytes] using hfit) hpre).1

theorem early (h : q.Pending cap f s seen) (hfit : q.bytes.length ≤ cap)
    (hpre : (seen ++ c) <+: q.bytes) (hlt : (seen ++ c).length < q.bytes.length) :
    (s.receive c).ret ≠ some .GET_REQUEST ∧ q.Pending cap f (s.receive c) (seen ++ c) := by
  have hacc := h.accepts hpre hfit
  cases h with
  | plain reference noBody n openHead =>
    have hbytes : q.bytes = q.head := by rw [Request.bytes, noBody, List.append_nil]
    rw [hbytes] at hpre hlt hfit
    obtain ⟨hret, n', hnext⟩ :=
      openHead.stay hacc (referenceHead_proper reference hpre hlt)
    exact ⟨by simp [hret], .plain reference noBody n' hnext⟩
  | withBody announced awaiting =>
    obtain ⟨hret, _, hnext⟩ :=
      awaiting.early announced (by simpa [Request.bytes] using hfit) hpre hlt
    refine ⟨fun hget => ?_, .withBody announced hnext⟩
    rw [hget] at hret
    simp at hret

/-- The chunk that brings the last byte of a request whose body is whole. -/
theorem last (h : q.Pending cap f s seen) (hfit : q.bytes.length ≤ cap) (hall : seen ++ c = q.bytes)
    (hwhole : Whole q.body) :
    (s.receive c).ret = some .GET_REQUEST ∧ (s.receive c).req.fields = (f, storedBody q.body) := by
  have hacc := h.accepts (c := c) ⟨[], by rw [hall, List.append_nil]⟩ hfit
  cases h with
  | plain reference noBody n openHead =>
    have hbytes : seen ++ c = q.head := by rw [hall, Request.bytes, noBody, List.append_nil]
    rw [noBody, storedBody_clean clean_nil]
    exact openHead.last hacc (by rw [hbytes, reference])
  | withBody announced awaiting =>
    cases awaiting.last announced (by simpa [Request.bytes] using hfit) hall with
    | got ret fields clean state exact =>
      exact ⟨ret, by rw [HttpRequest.fields, fields, (exact hwhole).2]⟩
    | missed ret hbody => exact absurd hwhole (hbody hwhole)

end Request.Pending

/-- A request read alone is completed if and only if its body is whole. -/
theorem Request.alone_eq {mem : Bytes} (hmem : mem.length < 2 ^ 31) (hwf : q.WellFormed f)
    (hfit : q.bytes.length ≤ mem.length) :
    (Whole q.body → q.alone mem = some (f, storedBody q.body)) ∧
      (¬ Whole q.body → q.alone mem = none) := by
  constructor
  · intro hwhole
    obtain ⟨hret, hfields⟩ := (Request.pending_start hmem hwf hfit).last hfit (List.nil_append _) hwhole
    simp only [Request.alone, hret, ↓reduceIte, hfields]
  · intro hdirty
    cases hwf with
    | plain reference noBody => exact absurd (Or.inl (noBody ▸ clean_nil)) hdirty
    | withBody announced =>
      -- read at once, the body is still as it came when it is scanned
      have henter := ((openHead_start hmem).enter (c := q.bytes) (W := True) announced
        (by simpa [Request.bytes] using hfit) ⟨[], by simp [Request.bytes]⟩).2
      cases Entered.last henter announced with
      | got ret fields clean state exact => exact absurd (exact trivial).1 hdirty
      | missed ret hbody =>
        unfold Request.alone
        rcases ret with ret | ret <;> simp [ret]

end

namespace Session

/-- The bytes that the messages of a session bring. -/
def bytesOf (ms : List Message) : Bytes := (ms.map Message.chunk).flatten

theorem bytesOf_append (ms ms' : List Message) : bytesOf (ms ++ ms') = bytesOf ms ++ bytesOf ms' := by
  simp [bytesOf]

/-- A session in which no message has come. -/
structure Fresh (rbuf : Bytes) (s : Session) : Prop where
  called : s.called = Called.start rbuf
  calls : s.calls = []

theorem fresh_start (rbuf wbuf : Bytes) (socket : Socket) (garbage : Event.Channel) (alive : Bool) :
    Fresh rbuf (start rbuf wbuf socket garbage alive) := ⟨rfl, rfl⟩

section
variable {rbuf : Bytes} {s : Session}

theorem Fresh.onceOnly (h : Fresh rbuf s) : s.OnceOnly := Or.inl h.calls

/-- Before the last byte of the first request the user has not been called. -/
theorem Fresh.pending_run {q : Request} {f : Head} (h : Fresh rbuf s) (hbuf : rbuf.length < 2 ^ 31)
    (hwf : q.WellFormed f) (hfit : q.bytes.length ≤ rbuf.length) (ms : List Message)
    (hpre : bytesOf ms <+: q.bytes) (hlt : (bytesOf ms).length < q.bytes.length) :
    (s.run ms).calls = [] ∧
      q.Pending rbuf.length f (s.run ms).called (bytesOf ms) := by
  induction ms using List.reverseRecOn with
  | nil => exact ⟨h.calls, h.called ▸ Request.pending_start hbuf hwf hfit⟩
  | append_singleton ms m ih =>
    have hbytes : bytesOf (ms ++ [m]) = bytesOf ms ++ m.chunk := by simp [bytesOf]
    rw [hbytes] at hpre hlt ⊢
    obtain ⟨hcalls, hpending⟩ := ih ((List.prefix_append _ _).trans hpre)
      (by rw [List.length_append] at hlt; omega)
    obtain ⟨hret, hnext⟩ := hpending.early hfit hpre hlt
    obtain ⟨hcalled, hsame⟩ := step_of_not_get hret
    rw [run_concat, hcalled, hsame]
    exact ⟨hcalls, hnext⟩

/-- One request whose body is whole is handed over once, with the fields it has alone. -/
theorem Fresh.calls_single {q : Request} {f : Head} (h : Fresh rbuf s) (hbuf : rbuf.length < 2 ^ 31)
    (hwf : q.WellFormed f) (hfit : q.bytes.length ≤ rbuf.length) (ms : List Message)
    (hcut : bytesOf ms = q.bytes) (hwhole : Whole q.body) :
    (s.run ms).calls = [(f, storedBody q.body)] := by
  have hne : bytesOf ms ≠ [] := by
    rw [hcut, Request.bytes]
    cases hwf with
    | plain reference noBody =>
      intro hnil
      rw [(List.append_eq_nil_iff.mp hnil).1] at reference
      simp [referenceHead, cutLines, requestLine, CutEnd.outcome] at reference
    | withBody announced =>
      intro hnil
      have := announced.nonempty
      simp [(List.append_eq_nil_iff.mp hnil).2] at this
  obtain ⟨pre, c, post, hsplit, hlt, hall⟩ := exists_last_chunk hne
  obtain ⟨ms₁, rest, rfl, rfl, hrest⟩ := List.map_eq_append_iff.mp hsplit
  obtain ⟨m, ms₂, rfl, rfl, rfl⟩ := List.map_eq_cons_iff.mp hrest
  have hlast : bytesOf ms₁ ++ m.chunk = q.bytes := by
    rw [← hcut]
    simpa [bytesOf] using hall
  obtain ⟨hcalls, hpending⟩ := h.pending_run hbuf hwf hfit ms₁ ⟨m.chunk, hlast⟩
    (by rw [← hcut]; exact hlt)
  obtain ⟨hret, hfields⟩ := hpending.last hfit hlast hwhole
  obtain ⟨_, hstep⟩ := step_of_get hret
  rw [hcalls, hfields, List.nil_append] at hstep
  have honce := h.onceOnly.run (ms₁ ++ [m])
  have hone : (s.run (ms₁ ++ [m])).calls =
      [(f, storedBody q.body)] := by rw [run_concat, hstep]
  have hrun : s.run (ms₁ ++ m :: ms₂) =
      (s.run (ms₁ ++ [m])).run ms₂ := by
    simp [run]
  rw [hrun, honce.calls_run (by simp [hone]) ms₂, hone]

/-- Without any bytes the user is not called. -/
theorem Fresh.calls_empty (h : Fresh rbuf s) (hbuf : rbuf.length < 2 ^ 31) (ms : List Message)
    (hcut : bytesOf ms = []) :
    (s.run ms).calls = [] := by
  have hopen : ∀ ms, bytesOf ms = [] → (s.run ms).calls = [] ∧
      ∃ n, OpenHead rbuf.length (s.run ms).called n [] := by
    intro ms
    induction ms using List.reverseRecOn with
    | nil => exact fun _ => ⟨h.calls, 0, h.called ▸ openHead_start hbuf⟩
    | append_singleton ms m ih =>
      intro hnil
      rw [bytesOf_append] at hnil
      obtain ⟨hms, hm⟩ := List.append_eq_nil_iff.mp hnil
      have hchunk : m.chunk = [] := by simpa [bytesOf] using hm
      obtain ⟨hcalls, n, hopen⟩ := ih hms
      have hacc := hopen.accepts (c := m.chunk) (by simp [hchunk])
      obtain ⟨hret, n', hnext⟩ := hopen.stay hacc (by rw [hchunk]; exact hopen.incomplete)
      obtain ⟨hcalled, hsame⟩ := step_of_not_get (s := s.run ms) (m := m) (by simp [hret])
      rw [run_concat, hcalled, hsame]
      rw [hchunk, List.append_nil] at hnext
      exact ⟨hcalls, n', hchunk ▸ hnext⟩
  exact (hopen ms hcut).1

end

end Session

/-- Over any sequence of well-formed requests that fit the buffer, and any reads that bring
their bytes, the user is called once for each with the fields it has alone if and only if
there is no request, or one whose body has no line end but perhaps one at its end. -/
theorem keepAlive_iff (rbuf wbuf : Bytes) (hbuf : rbuf.length < 2 ^ 31) (socket : Socket)
    (garbage : Event.Channel) (alive : Bool) (reqs : List Request)
    (hwf : ∀ q ∈ reqs, ∃ f, q.WellFormed f) (hfit : ∀ q ∈ reqs, q.bytes.length ≤ rbuf.length)
    (ms : List Message) (hcut : Session.bytesOf ms = (reqs.map Request.bytes).flatten) :
    ((Session.start rbuf wbuf socket garbage alive).run ms).calls.map some =
        reqs.map (Request.alone rbuf) ↔
      reqs = [] ∨ ∃ q, reqs = [q] ∧ Whole q.body := by
  have hfresh := Session.fresh_start rbuf wbuf socket garbage alive
  generalize Session.start rbuf wbuf socket garbage alive = s at hfresh
  constructor
  · intro hall
    have hle := (hfresh.onceOnly.run ms).calls_le
    have hlen := congrArg List.length hall
    rw [List.length_map, List.length_map] at hlen
    rcases reqs with _ | ⟨q, _ | ⟨q', rest⟩⟩
    · exact Or.inl rfl
    · right
      refine ⟨q, rfl, ?_⟩
      by_contra hdirty
      obtain ⟨f, hf⟩ := hwf q (by simp)
      have hnone := (Request.alone_eq hbuf hf (hfit q (by simp))).2 hdirty
      obtain ⟨x, hx⟩ := List.length_eq_one_iff.mp hlen
      rw [hx, List.map_cons, List.map_cons, hnone] at hall
      simp at hall
    · simp only [List.length_cons] at hlen
      omega
  · rintro (rfl | ⟨q, rfl, hwhole⟩)
    · rw [hfresh.calls_empty hbuf ms (by simpa using hcut)]
      rfl
    · obtain ⟨f, hf⟩ := hwf q (by simp)
      have hq := hfit q (by simp)
      rw [hfresh.calls_single hbuf hf hq ms (by simpa using hcut) hwhole, List.map_cons, List.map_cons,
        (Request.alone_eq hbuf hf hq).1 hwhole]
      rfl

/-- A handler that leaves the response as it is. -/
def idle : HttpServeFunc := fun _ resp => resp

def getRequest : Request := ⟨ascii "GET / HTTP/1.1\r\nConnection: keep-isAlive\r\n\r\n", []⟩

def getHead : Head :=
  { method := some .GET, url := ascii "/", version := ascii "HTTP/1.1", isAlive := true }

/-- One request, cut in its header line. -/
theorem keepAlive_single :
    ((Session.start (List.replicate 64 0) [] ⟨[], [], []⟩ ⟨0, 0⟩ true).run
        [⟨getRequest.bytes.take 20, idle⟩, ⟨getRequest.bytes.drop 20, idle⟩]).calls.map some =
      [getRequest].map (Request.alone (List.replicate 64 0)) :=
  (keepAlive_iff (List.replicate 64 0) [] (by decide) ⟨[], [], []⟩ ⟨0, 0⟩ true [getRequest]
    (fun q hq => by
      obtain rfl := List.mem_singleton.mp hq
      exact ⟨getHead, .plain (by decide +kernel) rfl⟩)
    (fun q hq => by
      obtain rfl := List.mem_singleton.mp hq
      decide +kernel)
    [⟨getRequest.bytes.take 20, idle⟩, ⟨getRequest.bytes.drop 20, idle⟩] (by decide +kernel)).mpr
    (Or.inr ⟨getRequest, rfl, Or.inl clean_nil⟩)

/-- The same request twice, in two reads: the user is called once. -/
theorem keepAlive_twice :
    getRequest.WellFormed getHead ∧ getRequest.bytes.length ≤ 64 ∧
      ((Session.start (List.replicate 64 0) (List.replicate 1024 0) ⟨[], [.wrote 1024], []⟩ ⟨0, 0⟩
          true).run [⟨getRequest.bytes, idle⟩, ⟨getRequest.bytes, idle⟩]).calls.map some ≠
        [getRequest, getRequest].map (Request.alone (List.replicate 64 0)) :=
  ⟨.plain (by decide +kernel) rfl, by decide +kernel, by decide +kernel⟩

end Knpnl.Http
