import Knpnl.Http.Body

/-!
# The rounds of `processRead`

What every round keeps holds until the last round of a call. In the body phase a round is the last
one of its call, and what it makes of the length is up to `parseContent`.
-/
namespace Knpnl.Http

open Lib.CString
open Base (FixedBuffer)
open HttpRequest (Called Round round processRead)

namespace HttpRequest

/-- The states in which the rounds of a call begin. -/
def rounds (req : HttpRequest) (buf : FixedBuffer) : List (HttpRequest × FixedBuffer) :=
  if buf.used > 0 then
    match _h : round req buf with
    | .done _ => [(req, buf)]
    | .again req' buf' => (req, buf) :: rounds req' buf'
  else []
termination_by buf.used - req.mCheckIndex
decreasing_by exact round_again ‹_›

theorem rounds_empty {req : HttpRequest} {buf : FixedBuffer} (h : buf.used = 0) : rounds req buf = [] := by
  rw [rounds, if_neg (by omega)]

theorem rounds_done {req : HttpRequest} {buf : FixedBuffer} {out : Called} (h : 0 < buf.used)
    (hr : round req buf = .done out) : rounds req buf = [(req, buf)] := by
  rw [rounds, if_pos h]
  split
  · rfl
  · rename_i ho
    rw [hr] at ho
    cases ho

theorem rounds_again {req req' : HttpRequest} {buf buf' : FixedBuffer} (h : 0 < buf.used)
    (hr : round req buf = .again req' buf') : rounds req buf = (req, buf) :: rounds req' buf' := by
  rw [rounds, if_pos h]
  split
  · rename_i ho
    rw [hr] at ho
    cases ho
  · rename_i ho
    rw [hr] at ho
    obtain ⟨rfl, rfl⟩ := Round.again.inj ho
    rfl

theorem used_pos_of_mem {req r : HttpRequest} {buf b : FixedBuffer} (h : (r, b) ∈ rounds req buf) :
    0 < b.used := by
  fun_induction rounds req buf with
  | case1 req buf hpos out hround =>
    obtain ⟨rfl, rfl⟩ := Prod.mk.inj (List.mem_singleton.mp h)
    exact hpos
  | case2 req buf hpos req' buf' hround ih =>
    rcases List.mem_cons.mp h with heq | hmem
    · obtain ⟨rfl, rfl⟩ := Prod.mk.inj heq
      exact hpos
    · exact ih hmem
  | case3 => cases h

theorem dispatch_success (req : HttpRequest) (buf : FixedBuffer)
    (hst : req.mCheckState = .CHECK_STATE_SUCCESS) : dispatch req buf = .again req buf := by
  unfold dispatch
  simp only [hst]

/-- How a call ends, `I` being kept from round to round: with an empty buffer, or with a round
that returns. -/
inductive Ending (I : HttpRequest → FixedBuffer → Prop) (req : HttpRequest) (buf : FixedBuffer) : Prop where
  | drained (r : HttpRequest) (b : FixedBuffer) (inv : I r b) (empty : b.used = 0)
      (hout : processRead req buf = ⟨some .NO_REQUEST, r, b⟩)
  | returned (r : HttpRequest) (b : FixedBuffer) (inv : I r b) (pos : 0 < b.used)
      (mem : (r, b) ∈ rounds req buf) (hround : round r b = .done (processRead req buf))

/-- What every round keeps holds at the start of each, and when the last one begins. -/
theorem rounds_invariant {I : HttpRequest → FixedBuffer → Prop} (req : HttpRequest) (buf : FixedBuffer)
    (hagain : ∀ r b r' b', (r, b) ∈ rounds req buf → I r b → round r b = .again r' b' → I r' b')
    (h : I req buf) : (∀ p ∈ rounds req buf, I p.1 p.2) ∧ Ending I req buf := by
  induction hm : buf.used - req.mCheckIndex using Nat.strongRecOn generalizing req buf with
  | _ m ih =>
  by_cases h0 : buf.used = 0
  · rw [rounds_empty h0]
    exact ⟨by simp, .drained req buf h h0 (processRead_empty h0)⟩
  have hpos : 0 < buf.used := by omega
  cases hr : round req buf with
  | done out =>
    have hlist := rounds_done hpos hr
    refine ⟨by simpa [hlist] using h, .returned req buf h hpos (by simp [hlist]) ?_⟩
    rw [processRead_done hpos hr, hr]
  | again req' buf' =>
    have hlist := rounds_again hpos hr
    have hcall := processRead_again hpos hr
    obtain ⟨hall, hend⟩ := ih _ (hm ▸ round_again hr) req' buf'
      (fun r b r' b' hmem => hagain r b r' b' (by simp [hlist, hmem]))
      (hagain req buf req' buf' (by simp [hlist]) h hr) rfl
    refine ⟨by simpa [hlist] using ⟨h, fun r b hmem => hall (r, b) hmem⟩, ?_⟩
    cases hend with
    | drained r b inv empty hout => exact .drained r b inv empty (hcall.trans hout)
    | returned r b inv pos mem hround => exact .returned r b inv pos (by simp [hlist, mem]) (hcall ▸ hround)

end HttpRequest

/-- The ways a round goes in the body phase. It is the last one of its call. -/
inductive BodyRound (r : HttpRequest) (b : FixedBuffer) : Called → Prop where
  | malformed (i : Nat) (scanned : Scanned i b.unread) (le : r.mCheckIndex ≤ i) (bad : Malformed b.unread) :
      BodyRound r b ⟨some .BAD_REQUEST, r.scanned i .LINE_BAD, b⟩
  | parsed (line : LINE_STATE) (b' : FixedBuffer) (good : ¬ Malformed b.unread) (ok : b'.Ok)
      (cap_eq : b'.cap = b.cap) (size : b'.unread.length = b.unread.length)
      (scanned : Scanned (lineStop b.unread) b'.unread) (le : r.mCheckIndex ≤ lineStop b.unread)
      (kept : (∃ v, Malformed (b.unread ++ v)) ∨ lineStop b.unread = 0 → b'.unread = b.unread)
      (cutEnd_eq : ∀ v, cutEnd (b'.unread ++ v) = cutEnd (b.unread ++ v)) :
      BodyRound r b
        ⟨((r.scanned (lineStop b.unread) line).parseContent b'.text).1,
          ((r.scanned (lineStop b.unread) line).parseContent b'.text).2, b'⟩

namespace HttpRequest

variable {r : HttpRequest} {b : FixedBuffer}

theorem bodyRound (hok : b.Ok) (hin : InBody r b.unread) :
    ∃ out, round r b = .done out ∧ BodyRound r b out := by
  refine ⟨_, round_body b hin.phase, ?_⟩
  cases scanEnd hok hin.toScanned with
  | unended line incomplete open_ scanned le hscan =>
    rw [hscan]
    dsimp only
    rw [if_neg incomplete.2, setText_text]
    exact .parsed line b (fun hbad => hbad.not_unended open_) hok rfl rfl scanned le (fun _ => rfl) fun _ => rfl
  | malformed i bad scanned le hscan =>
    rw [hscan]
    dsimp only
    rw [if_pos rfl, setText_text]
    exact .malformed i scanned le bad
  | ended l rest junk hline le htext hscan =>
    have hl := hline.clean
    have hu := hline.unread
    have hover := endOverwritten hok hline htext
    have hstop := lineStop_ended hl rest
    rw [← hu] at hstop
    rw [hscan]
    dsimp only
    rw [if_neg (by simp), ← hstop]
    refine .parsed _ _ ?_ hover.ok rfl hover.size (hstop ▸ hover.scanned) (by omega) ?_ hover.cutEnd_eq
    · rw [hu]
      exact not_malformed_ended hl rest
    · rintro (⟨v, hbad⟩ | hzero)
      · rw [hu, List.append_assoc] at hbad
        exact absurd hbad (not_malformed_ended hl (rest ++ v))
      · omega

/-- What `parseContent` makes of a length: it waits, throws, or stores the body. -/
theorem parseContent_cases (req : HttpRequest) (text : Bytes) :
    (req.mCheckIndex : Int) < req.contentLength ∧ parseContent req text = (some .NO_REQUEST, req) ∨
      req.contentLength < 0 ∧ parseContent req text = (none, req) ∨
      0 ≤ req.contentLength ∧ req.contentLength ≤ req.mCheckIndex ∧
        parseContent req text = (some .GET_REQUEST,
          { req with body := text.take req.contentLength.toNat, mCheckState := .CHECK_STATE_SUCCESS }) := by
  unfold parseContent
  by_cases hlen : (req.mCheckIndex : Int) ≥ req.contentLength
  · by_cases hneg : req.contentLength < 0
    · rw [if_pos hlen, if_pos hneg]
      exact Or.inr (Or.inl ⟨hneg, rfl⟩)
    · rw [if_pos hlen, if_neg hneg]
      exact Or.inr (Or.inr ⟨by omega, hlen, rfl⟩)
  · rw [if_neg hlen]
    exact Or.inl ⟨by omega, rfl⟩

end HttpRequest

end Knpnl.Http
