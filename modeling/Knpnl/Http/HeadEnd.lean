import Knpnl.Http.Phases

/-!
# Where a head ends

Lines are delimited by CR LF, and read as C strings. The two agree on a line without NUL. A header
line that begins with a NUL is read as the empty line that ends the head, and of a request line
only what stands before a NUL is read. Elsewhere in a header line a NUL does neither.
-/
namespace Knpnl.Http

open Lib.CString Lib.Feed
open Base (FixedBuffer)
open HttpRequest (Called Round round rounds processRead)

/-- The request after a round. -/
def HttpRequest.Round.req : Round → HttpRequest
  | .done out => out.req
  | .again req _ => req

/-- At the offset `n` a CR LF follows the CR LF that ended the previous line. -/
def EmptyLineAt (stream : Bytes) (n : Nat) : Prop :=
  ∃ p rest, stream = p ++ CR :: LF :: CR :: LF :: rest ∧ n = p.length + 2

/-- What is required of a round, the bytes `stream` having been appended: in the header state, that
it ends the head exactly if its line is empty, and where it completes the request line `l`, that
`l` is the C string that `parseRequest` reads. -/
structure RoundHead (stream : Bytes) (r : HttpRequest) (b : FixedBuffer) : Prop where
  ends : r.mCheckState = .CHECK_STATE_HEADER →
    ((round r b).req.mCheckState ≠ .CHECK_STATE_HEADER ↔ EmptyLineAt stream (stream.length - b.used))
  whole : r.mCheckState = .CHECK_STATE_REQUEST → ∀ l rest, Clean l → stream = l ++ CR :: LF :: rest →
    b.unread = stream → cstr (parseLine b.text b.used r.mCheckIndex).2.2 = l

/-- In every round of every call, as the chunks come. -/
def HeadsOk (mem : Bytes) (chunks : List Bytes) : Prop :=
  ∀ pre c, (pre ++ [c]) <+: chunks →
    let s := feed Called.receive (.start mem) pre
    ∀ p ∈ rounds s.req (s.buf.append c).buf, RoundHead (pre ++ [c]).flatten p.1 p.2

/-- No line before the first empty one begins with a NUL. -/
def HeadersSafe : List Bytes → Prop
  | [] => True
  | l :: ls => l = [] ∨ l.head? ≠ some 0 ∧ HeadersSafe ls

/-- The request line has no NUL, and if it is accepted the header lines are safe. -/
def LinesSafe : List Bytes → Prop
  | [] => True
  | l :: ls => 0 ∉ l ∧ (requestRules l ≠ none → HeadersSafe ls)

def NulSafe (stream : Bytes) : Prop := LinesSafe (cutLines [] stream).1

/-- The lines that are still to be read in the state `st`. -/
def StateSafe (st : CHECK_STATE) (ls : List Bytes) : Prop :=
  if st = .CHECK_STATE_REQUEST then LinesSafe ls else HeadersSafe ls

instance decidableHeadersSafe : (ls : List Bytes) → Decidable (HeadersSafe ls)
  | [] => isTrue trivial
  | l :: ls =>
      have := decidableHeadersSafe ls
      inferInstanceAs (Decidable (l = [] ∨ l.head? ≠ some 0 ∧ HeadersSafe ls))

instance : (ls : List Bytes) → Decidable (LinesSafe ls)
  | [] => isTrue trivial
  | l :: ls => inferInstanceAs (Decidable (0 ∉ l ∧ (requestRules l ≠ none → HeadersSafe ls)))

instance (stream : Bytes) : Decidable (NulSafe stream) :=
  inferInstanceAs (Decidable (LinesSafe _))

theorem cstr_eq_nil_iff (l : Bytes) : cstr l = [] ↔ l = [] ∨ l.head? = some 0 := by
  cases l with
  | nil => simp [cstr]
  | cons c l => simp [cstr, List.takeWhile_cons]

theorem cstr_eq_self_iff (l : Bytes) : cstr l = l ↔ 0 ∉ l :=
  ⟨fun h => h ▸ nulFree_cstr l, cstr_of_nulFree⟩

theorem headersSafe_append {done : List Bytes} (h : ∀ m ∈ done, cstr m ≠ []) (ls : List Bytes) :
    HeadersSafe (done ++ ls) ↔ HeadersSafe ls := by
  induction done with
  | nil => rfl
  | cons m done ih =>
    have hm := h m List.mem_cons_self
    rw [ne_eq, cstr_eq_nil_iff, not_or] at hm
    rw [List.cons_append, HeadersSafe, ih fun d hd => h d (List.mem_cons_of_mem m hd)]
    simp [hm]

/-- The lines that have been consumed are safe if the request line among them is. -/
theorem HeadLines.linesSafe_iff {st : CHECK_STATE} {done : List Bytes} (h : HeadLines st done)
    (ls : List Bytes) : LinesSafe (done ++ ls) ↔ (∀ l ∈ done.head?, 0 ∉ l) ∧ StateSafe st ls := by
  unfold HeadLines at h
  unfold StateSafe
  split at h
  · rename_i hst
    rw [if_pos hst, h]
    simp
  · rename_i hst
    obtain ⟨l, ms, rfl, rules, hms⟩ := h
    rw [if_neg hst, List.cons_append, LinesSafe, headersSafe_append hms]
    simp only [List.head?_cons, Option.mem_def, Option.some.injEq, forall_eq']
    refine and_congr_right fun hl => ?_
    rw [← cstr_of_nulFree hl]
    simp [rules]

/-- The two readings of the first of the lines `ls` agree. -/
def FirstSafe (st : CHECK_STATE) (ls : List Bytes) : Prop :=
  ∀ l ∈ ls.head?, if st = .CHECK_STATE_REQUEST then 0 ∉ l else cstr l = [] → l = []

theorem StateSafe.first {st : CHECK_STATE} {ls : List Bytes} (h : StateSafe st ls) : FirstSafe st ls := by
  cases ls with
  | nil => simp [FirstSafe]
  | cons l ls =>
    simp only [FirstSafe, List.head?_cons, Option.mem_def, Option.some.injEq, forall_eq']
    unfold StateSafe at h
    split at h
    · rename_i hst
      rw [if_pos hst]
      exact h.1
    · rename_i hst
      rw [if_neg hst, cstr_eq_nil_iff]
      rcases h with hnil | ⟨hnul, _⟩
      · exact fun _ => hnil
      · exact fun hor => hor.resolve_right hnul

section
variable {cap n : Nat} {stream : Bytes} {r : HttpRequest} {b : FixedBuffer} {done : List Bytes}

theorem EmptyLineAt.drop (h : EmptyLineAt stream n) : ∃ rest, stream.drop n = CR :: LF :: rest := by
  obtain ⟨p, rest, rfl, rfl⟩ := h
  refine ⟨rest, ?_⟩
  rw [← List.drop_drop, List.drop_left]
  rfl

theorem emptyLineAt_iff {p : Bytes} (hn : n ≤ stream.length) (htake : stream.take n = p ++ [CR, LF]) :
    EmptyLineAt stream n ↔ ∃ rest, stream.drop n = CR :: LF :: rest := by
  refine ⟨EmptyLineAt.drop, ?_⟩
  rintro ⟨rest, hdrop⟩
  refine ⟨p, rest, ?_, ?_⟩
  · rw [← List.take_append_drop n stream, htake, hdrop]
    simp
  · have hlen := congrArg List.length htake
    rw [List.length_take, Nat.min_eq_left hn] at hlen
    simpa using hlen

theorem LineOf.unique {l l' rest rest' : Bytes} (h : LineOf b l rest) (h' : LineOf b l' rest') : l = l' := by
  have heq := h.unread.symm.trans h'.unread
  rw [← takeWhile_clean h.clean (Or.inl rfl) (LF :: rest), heq, takeWhile_clean h'.clean (Or.inl rfl)]

theorem LineOf.empty_iff {l rest : Bytes} (h : LineOf b l rest) :
    (∃ rest', b.unread = CR :: LF :: rest') ↔ l = [] := by
  constructor
  · rintro ⟨rest', hu⟩
    exact h.unique ⟨clean_nil, hu⟩
  · rintro rfl
    exact ⟨rest, h.unread⟩

theorem LineOf.lines {l rest : Bytes} (h : LineOf b l rest) :
    (cutLines [] b.unread).1 = l :: (cutLines [] rest).1 := by
  rw [h.unread, cutLines_ended h.clean]

/-- The request line, as it came. -/
theorem roundHead_request (hok : b.Ok) (hin : InHead r b.unread) (hst : r.mCheckState = .CHECK_STATE_REQUEST)
    (hunread : b.unread = stream) :
    RoundHead stream r b ↔ FirstSafe r.mCheckState (cutLines [] b.unread).1 := by
  have noLine : (cutLines [] b.unread).1 = [] → (RoundHead stream r b ↔
      FirstSafe r.mCheckState (cutLines [] b.unread).1) := by
    intro hnil
    have hsafe : FirstSafe r.mCheckState (cutLines [] b.unread).1 := by simp [hnil, FirstSafe]
    refine iff_of_true ⟨fun h => (by cases hst.symm.trans h), fun _ l rest hl hstream _ => ?_⟩ hsafe
    rw [hunread, hstream, cutLines_ended hl] at hnil
    cases hnil
  cases scanEnd hok hin.toScanned with
  | unended _ _ open_ => exact noLine (congrArg Prod.fst open_)
  | malformed _ bad => exact noLine (congrArg Prod.fst bad)
  | ended l rest junk hline _ htext hscan =>
    have hstr : cstr (parseLine b.text b.used r.mCheckIndex).2.2 = cstr l := by
      obtain ⟨t, ht⟩ := HttpRequest.exists_terminated l (0 :: (rest ++ junk))
      rw [hscan]
      dsimp only
      rw [ht, cstr_append_nul (nulFree_cstr l)]
    have hfirst : FirstSafe r.mCheckState (cutLines [] b.unread).1 ↔ 0 ∉ l := by
      simp [FirstSafe, hline.lines, hst]
    rw [hfirst, ← cstr_eq_self_iff, ← hstr]
    constructor
    · exact fun h => h.whole hst l rest hline.clean (hunread ▸ hline.unread) hunread
    · refine fun hwhole => ⟨fun h => (by cases hst.symm.trans h), fun _ l' rest' hl' hstream _ => ?_⟩
      have hsame : l = l' := hline.unique ⟨hl', hunread.trans hstream⟩
      exact hsame ▸ hwhole

/-- A header line. -/
theorem roundHead_header (hok : b.Ok) (hin : InHead r b.unread) (hst : r.mCheckState = .CHECK_STATE_HEADER)
    (hn : n ≤ stream.length) (hunread : b.unread = stream.drop n) {p : Bytes}
    (htake : stream.take n = p ++ [CR, LF]) :
    RoundHead stream r b ↔ FirstSafe r.mCheckState (cutLines [] b.unread).1 := by
  have hoffset : stream.length - b.used = n := by
    rw [← hok.unread_length, hunread, List.length_drop]
    omega
  have hround : RoundHead stream r b ↔
      ((round r b).req.mCheckState ≠ .CHECK_STATE_HEADER ↔ ∃ rest, b.unread = CR :: LF :: rest) := by
    rw [hunread, ← emptyLineAt_iff hn htake, ← hoffset]
    exact ⟨fun h => h.ends hst, fun h => ⟨fun _ => h, fun h' => (by cases hst.symm.trans h')⟩⟩
  -- a round that completes no line
  have noLine : (cutLines [] b.unread).1 = [] → (round r b).req.mCheckState = .CHECK_STATE_HEADER →
      (RoundHead stream r b ↔ FirstSafe r.mCheckState (cutLines [] b.unread).1) := by
    intro hnil hstays
    refine hround.trans (iff_of_true (iff_of_false (not_not.mpr hstays) ?_) (by simp [hnil, FirstSafe]))
    rintro ⟨rest, hu⟩
    rw [hu] at hnil
    cases hnil
  have line : ∀ l rest, LineOf b l rest →
      (FirstSafe r.mCheckState (cutLines [] b.unread).1 ↔ (cstr l = [] → l = [])) := by
    intro l rest hline
    simp [FirstSafe, hline.lines, hst]
  have hway := HttpRequest.headRound hok hin
  generalize round r b = o at hway hround noLine
  cases hway with
  | unended line i scanned open_ => exact noLine (by rw [open_]) hst
  | malformed i scanned bad => exact noLine (by rw [bad]) hst
  | refused l rest line state => cases hst.symm.trans state
  | accepted l rest line state => cases hst.symm.trans state
  | field l rest hline state text b' consumed =>
    rw [hround, hline.empty_iff, line l rest hline]
    have hne : l ≠ [] := fun h => text (by rw [h]; rfl)
    simp [HttpRequest.Round.req, hst, hne, text]
  | complete l rest hline state empty =>
    rw [hround, hline.empty_iff, line l rest hline]
    simp [HttpRequest.Round.req, empty]
  | body l rest hline state empty =>
    rw [hround, hline.empty_iff, line l rest hline]
    simp [HttpRequest.Round.req, empty]

/-- While the head is open, a round is right exactly if the two readings of its line agree. -/
theorem OpenAt.roundHead_iff (h : OpenAt stream r b n done) (hok : b.Ok) :
    RoundHead stream r b ↔ FirstSafe r.mCheckState (cutLines [] b.unread).1 := by
  have start := h.start
  unfold LineStart at start
  rcases h.phase with hst | hst
  · rw [if_pos hst] at start
    have hunread := h.unread
    rw [start, List.drop_zero] at hunread
    exact roundHead_request hok h.toInHead hst hunread
  · rw [if_neg (by simp [hst])] at start
    obtain ⟨p, htake⟩ := start
    exact roundHead_header hok h.toInHead hst h.le h.unread htake

/-- Once the head is decided every round is right. -/
theorem Refused.roundHead (h : Refused r b.unread) (hok : b.Ok) (hat : RefusedAt stream r b) :
    RoundHead stream r b := by
  obtain ⟨out, hdone, left⟩ := HttpRequest.refusedRound hok h
  have not_line : ∀ {l rest : Bytes}, Clean l → Malformed b.unread → b.unread ≠ l ++ CR :: LF :: rest := by
    intro l rest hl hbad hu
    rw [hu] at hbad
    exact not_malformed_ended hl rest hbad
  refine ⟨fun hst => iff_of_false ?_ fun hempty => ?_, fun hst l rest hl hstream hunread => ?_⟩
  · rw [hdone]
    exact not_not.mpr (left.state.trans hst)
  · rcases hat with ⟨bad, n, hn, hunread⟩ | ⟨state, _⟩
    · have hoffset : stream.length - b.used = n := by
        rw [← hok.unread_length, hunread, List.length_drop]
        omega
      rw [hoffset] at hempty
      obtain ⟨rest, hdrop⟩ := hempty.drop
      exact not_line clean_nil bad (hunread.trans hdrop)
    · cases hst.symm.trans state
  · rcases hat with ⟨bad, _⟩ | ⟨_, dirty⟩
    · exact absurd (hunread.trans hstream) (not_line hl bad)
    · rw [← hunread] at dirty
      exact absurd h.scanned.clean dirty

theorem roundHead_of_state (hst : r.mCheckState = .CHECK_STATE_BODY ∨ r.mCheckState = .CHECK_STATE_SUCCESS) :
    RoundHead stream r b := by
  constructor
  · intro h
    rcases hst with h' | h' <;> cases h.symm.trans h'
  · intro h
    rcases hst with h' | h' <;> cases h.symm.trans h'

theorem OpenAt.nulSafe_iff (h : OpenAt stream r b n done) :
    NulSafe stream ↔ (∀ l ∈ done.head?, 0 ∉ l) ∧ StateSafe r.mCheckState (cutLines [] b.unread).1 := by
  have hcut := h.cut []
  rw [List.append_nil, List.append_nil] at hcut
  rw [NulSafe, hcut]
  exact h.lines.linesSafe_iff _

/-- In safe lines every round is right. -/
theorem Parsing.roundHead (h : Parsing cap stream r b) (hsafe : NulSafe stream) : RoundHead stream r b := by
  obtain ⟨hok, hcap, phase⟩ := h
  cases phase with
  | head n done openAt => exact (openAt.roundHead_iff hok).mpr (openAt.nulSafe_iff.mp hsafe).2.first
  | refused refused refusedAt reference => exact refused.roundHead hok refusedAt
  | body n bodyAt => exact roundHead_of_state (Or.inl bodyAt.phase)
  | success state => exact roundHead_of_state (Or.inr state)

/-- The head is open with a request line that is safe, or it has ended and its lines are safe. -/
inductive Heard (stream : Bytes) (r : HttpRequest) (b : FixedBuffer) : Prop where
  | head (n : Nat) (done : List Bytes) (ok : b.Ok) (openAt : OpenAt stream r b n done)
      (safe : ∀ l ∈ done.head?, 0 ∉ l)
  | body (n : Nat) (ok : b.Ok) (bodyAt : BodyAt stream r b n) (safe : NulSafe stream)

namespace Heard

variable {l rest : Bytes}

theorem line_safe (h : OpenAt stream r b n done) (hok : b.Ok) (hline : LineOf b l rest)
    (hright : RoundHead stream r b) :
    if r.mCheckState = .CHECK_STATE_REQUEST then 0 ∉ l else cstr l = [] → l = [] :=
  (h.roundHead_iff hok).mp hright l (by simp [hline.lines])

theorem again (h : Heard stream r b) (hright : RoundHead stream r b) {r' : HttpRequest} {b' : FixedBuffer}
    (hround : round r b = .again r' b') : Heard stream r' b' := by
  cases h with
  | head n done ok openAt safe =>
    have hline := fun {l rest} (line : LineOf b l rest) => line_safe openAt ok line hright
    have hway := HttpRequest.headRound ok openAt.toInHead
    rw [hround] at hway
    cases hway with
    | accepted l rest line state method url version rules b' consumed =>
      have hnul := hline line
      rw [if_pos state] at hnul
      exact .head _ _ consumed.ok (openAt.accepted line state rules consumed) (by simpa using hnul)
    | field l rest line state text b' consumed =>
      have lines := openAt.lines
      rw [state] at lines
      obtain ⟨l₀, ls, rfl, _⟩ := lines
      exact .head _ _ consumed.ok (openAt.field line state text consumed) safe
    | body l rest line state empty hasBody b' consumed =>
      have hempty := hline line
      rw [state, if_neg (by simp)] at hempty
      refine .body _ consumed.ok (openAt.body line state empty hasBody consumed) ?_
      rw [openAt.nulSafe_iff, line.lines, state]
      exact ⟨safe, Or.inl (hempty empty)⟩
  | body n ok bodyAt safe =>
    obtain ⟨out, hdone, _⟩ := HttpRequest.bodyRound ok bodyAt.toInBody
    cases hround.symm.trans hdone

/-- A round that returns while the head is open, and is right. -/
theorem safe_of_done (h : OpenAt stream r b n done) (hok : b.Ok) (hsafe : ∀ l ∈ done.head?, 0 ∉ l)
    (hright : RoundHead stream r b) {out : Called} (hround : round r b = .done out) : NulSafe stream := by
  have hline := fun {l rest} (line : LineOf b l rest) => line_safe h hok line hright
  have noLine : (cutLines [] b.unread).1 = [] → StateSafe r.mCheckState (cutLines [] b.unread).1 := by
    intro hnil
    rw [hnil, StateSafe]
    split <;> trivial
  refine h.nulSafe_iff.mpr ⟨hsafe, ?_⟩
  have hway := HttpRequest.headRound hok h.toInHead
  rw [hround] at hway
  cases hway with
  | unended line i scanned open_ => exact noLine (by rw [open_])
  | malformed i scanned bad => exact noLine (by rw [bad])
  | refused l rest line state rules out left =>
    have hnul := hline line
    rw [if_pos state] at hnul
    rw [cstr_of_nulFree hnul] at rules
    rw [line.lines, StateSafe, if_pos state]
    exact ⟨hnul, fun h => absurd rules h⟩
  | complete l rest line state empty noBody b' consumed =>
    have hempty := hline line
    rw [state, if_neg (by simp)] at hempty
    rw [line.lines, state]
    exact Or.inl (hempty empty)

/-- If every round of a call is right, the lines that it has completed are safe. -/
theorem nulSafe (h : Heard stream r b) (hright : ∀ p ∈ rounds r b, RoundHead stream p.1 p.2) :
    NulSafe stream := by
  have hending := HttpRequest.rounds_invariant r b
    (fun r b _ _ hmem hinv hround => hinv.again (hright (r, b) hmem) hround) h
  cases hending.2 with
  | drained r' b' inv empty hout =>
    cases inv with
    | head n done ok openAt safe =>
      have hnil := ok.unread_eq_nil empty
      refine openAt.nulSafe_iff.mpr ⟨safe, ?_⟩
      rw [hnil, StateSafe]
      split <;> trivial
    | body n ok bodyAt safe => exact safe
  | returned r' b' inv pos mem hround =>
    cases inv with
    | head n done ok openAt safe => exact safe_of_done openAt ok safe (hright _ mem) hround
    | body n ok bodyAt safe => exact safe

end Heard
end

/-- More bytes add lines, unless the stream is malformed. -/
theorem cutLines_append (cur u v : Bytes) : ∃ more, (cutLines cur (u ++ v)).1 = (cutLines cur u).1 ++ more ∧
    ((cutLines cur u).2 = .bad → more = []) := by
  fun_induction cutLines cur u with
  | case1 => exact ⟨_, rfl, fun h => by cases h⟩
  | case2 cur c =>
    refine ⟨_, rfl, fun h => ?_⟩
    have hc : c = LF := by simpa using h
    subst hc
    cases v <;> simp [cutLines, CR, LF]
  | case3 cur rest ih =>
    obtain ⟨more, hlines, hbad⟩ := ih
    exact ⟨more, by simp [cutLines, hlines], hbad⟩
  | case4 cur d rest hd => exact ⟨[], by simp [cutLines, hd], fun _ => rfl⟩
  | case5 cur d rest hcr => exact ⟨[], by simp [cutLines, hcr], fun _ => rfl⟩
  | case6 cur c d rest hcr hlf ih =>
    obtain ⟨more, hlines, hbad⟩ := ih
    refine ⟨more, ?_, hbad⟩
    rw [← hlines, List.cons_append, List.cons_append, cutLines, if_neg hcr, if_neg hlf]

theorem HeadersSafe.of_append {ls more : List Bytes} (h : HeadersSafe (ls ++ more)) : HeadersSafe ls := by
  induction ls with
  | nil => trivial
  | cons l ls ih => exact h.imp id fun h => ⟨h.1, ih h.2⟩

theorem NulSafe.of_append {u v : Bytes} (h : NulSafe (u ++ v)) : NulSafe u := by
  obtain ⟨more, hlines, _⟩ := cutLines_append [] u v
  unfold NulSafe at h ⊢
  rw [hlines] at h
  cases hu : (cutLines [] u).1 with
  | nil => trivial
  | cons l ls =>
    rw [hu] at h
    exact ⟨h.1, fun hrules => (h.2 hrules).of_append⟩

/-- Headers that are decided by the lines `ls` end at one of them. -/
theorem HeadersSafe.append {ls : List Bytes} (h : HeadersSafe ls) {f : Head} {n : Nat}
    (hdecided : headers cstr f n ls .more ≠ .incomplete) (more : List Bytes) : HeadersSafe (ls ++ more) := by
  induction ls generalizing f n with
  | nil => exact absurd rfl hdecided
  | cons l ls ih =>
    rcases h with hnil | ⟨hnul, h⟩
    · exact Or.inl hnil
    · by_cases hempty : cstr l = []
      · exact Or.inl (((cstr_eq_nil_iff l).mp hempty).resolve_right hnul)
      · rw [headers, if_neg hempty] at hdecided
        exact Or.inr ⟨hnul, ih h hdecided⟩

/-- What follows a head that is decided makes no difference. -/
theorem NulSafe.append {u : Bytes} (h : NulSafe u) (hdecided : referenceHead cstr u ≠ .incomplete)
    (v : Bytes) : NulSafe (u ++ v) := by
  obtain ⟨more, hlines, hbad⟩ := cutLines_append [] u v
  unfold NulSafe at h ⊢
  rw [hlines]
  unfold referenceHead at hdecided
  cases hend : (cutLines [] u).2 with
  | bad =>
    rw [hbad hend, List.append_nil]
    exact h
  | more =>
    rw [hend] at hdecided
    cases hu : (cutLines [] u).1 with
    | nil =>
      rw [hu] at hdecided
      exact absurd rfl hdecided
    | cons l ls =>
      rw [hu] at h hdecided
      refine ⟨h.1, fun hrules => ?_⟩
      obtain ⟨⟨method, url, version⟩, hq⟩ := Option.ne_none_iff_exists'.mp hrules
      simp only [requestLine, cstr_of_nulFree h.1, hq] at hdecided
      exact (h.2 hrules).append hdecided more

/-- A call whose rounds are all right, after lines that are safe. -/
theorem Parsing.nulSafe_receive {cap : Nat} {stream c : Bytes} {s : Called}
    (h : Parsing cap stream s.req s.buf) (hc : s.Accepts c) (hsafe : NulSafe stream)
    (hright : ∀ p ∈ rounds s.req (s.buf.append c).buf, RoundHead (stream ++ c) p.1 p.2) :
    NulSafe (stream ++ c) := by
  cases h.phase with
  | head n done openAt =>
    have happ := h.ok.append c
    have hnext := openAt.append (happ.unread_of_ret hc)
    exact Heard.nulSafe (.head n done happ.ok hnext (openAt.nulSafe_iff.mp hsafe).1) hright
  | refused refused refusedAt reference => exact hsafe.append (by simp [referenceHead_now reference]) c
  | body n bodyAt => exact hsafe.append (by simp [referenceHead_now bodyAt.reference]) c
  | success state scanned reference =>
    rcases reference with ⟨n, reference⟩ | ⟨n, _, reference⟩
    all_goals exact hsafe.append (by simp [referenceHead_now reference]) c

/-- Heads end at empty lines, and request lines are read whole, if and only if the request line
has no NUL and, where it is accepted, no header line before the first empty one begins with a NUL. -/
theorem headsOk_iff (mem : Bytes) (hmem : mem.length < 2 ^ 31) (chunks : List Bytes)
    (hfeed : Feeds Called.receive Called.Accepts (.start mem) chunks) :
    HeadsOk mem chunks ↔ NulSafe chunks.flatten := by
  constructor
  · intro hok
    suffices hall : ∀ pre, pre <+: chunks → NulSafe pre.flatten from hall chunks (List.prefix_refl _)
    intro pre
    induction pre using List.reverseRecOn with
    | nil => exact fun _ => trivial
    | append_singleton pre c ih =>
      intro hpre
      obtain ⟨hrun, hc⟩ := feeds_concat.mp (hfeed.of_prefix hpre)
      have hright := hok pre c hpre
      rw [List.flatten_concat] at hright ⊢
      exact (Parsing.run hmem hrun).nulSafe_receive hc (ih ((List.prefix_append _ _).trans hpre)) hright
  · rintro hsafe pre c ⟨post, rfl⟩ s p hp
    have hpre : (pre ++ [c]) <+: (pre ++ [c]) ++ post := List.prefix_append _ _
    obtain ⟨hrun, hc⟩ := feeds_concat.mp (hfeed.of_prefix hpre)
    rw [List.flatten_append] at hsafe
    have hparsing := ((Parsing.run hmem hrun).append hc).rounds_ending.1 p hp
    rw [← List.flatten_concat] at hparsing
    exact hparsing.roundHead hsafe.of_append

/-- A NUL inside a header line, and a cut inside the line that ends the head. -/
theorem headsOk_iff_inner :
    HeadsOk (List.replicate 64 0) [ascii "GET / HTTP/1.1\r\nA:" ++ 0 :: ascii "b\r\n\r", ascii "\n"] :=
  (headsOk_iff (List.replicate 64 0) (by decide)
    [ascii "GET / HTTP/1.1\r\nA:" ++ 0 :: ascii "b\r\n\r", ascii "\n"] (by decide +kernel)).mpr
    (by decide +kernel)

/-- Whatever the stream, NUL bytes included, and however it is cut. -/
def AlwaysHeadsOk : Prop :=
  ∀ (mem : Bytes) (chunks : List Bytes), mem.length = FixedBuffer.kBufferSize →
    Feeds Called.receive Called.Accepts (.start mem) chunks → HeadsOk mem chunks

/-- A header line of one NUL ends the head. -/
theorem alwaysHeadsOk_nul : ¬ AlwaysHeadsOk := by
  intro hclaim
  have hok := hclaim (List.replicate 1024 0) [ascii "GET / HTTP/1.1\r\n" ++ 0 :: ascii "\r\n"]
    List.length_replicate (by decide +kernel) [] _ (List.prefix_refl _)
  -- the second round reads the header line
  have hright := hok _ (List.getElem_mem (n := 1) (by decide +kernel))
  have hempty := (hright.ends (by decide +kernel)).mp (by decide +kernel)
  obtain ⟨rest, hdrop⟩ := hempty.drop
  have hhead := congrArg List.head? hdrop
  rw [List.head?_cons] at hhead
  revert hhead
  clear hdrop rest
  decide +kernel

end Knpnl.Http
