import Knpnl.Http.Rounds
import Knpnl.Lib.Reach
import Knpnl.Lib.Traced

/-!
# The bytes that `processRead` touches

The parser once more, with every byte that it reads or overwrites. A pointer into the text is an
offset, and the C library may read a string up to its terminator. `parseLine` leaves two NULs at
the end of the line it completes, so no string that begins in the line goes on past it.
-/
namespace Knpnl.Http.Access

open Lib Lib.CString
open Base (FixedBuffer)
open HttpRequest (Called Round)

def parseLine (rd_buf : Bytes) (sz i : Nat) : Traced Nat (LINE_STATE × Nat × Bytes) :=
  if i < sz then do
    let ch ← readAt rd_buf i
    if ch = CR then
      if i + 1 = sz then pure (.LINE_OPEN, i, rd_buf)
      else
        let next ← readAt rd_buf (i + 1)
        if next = LF then
          let rd_buf ← writeAt rd_buf i 0
          let rd_buf ← writeAt rd_buf (i + 1) 0
          pure (.LINE_OK, i + 2, rd_buf)
        else pure (.LINE_BAD, i, rd_buf)
    else if ch = LF then
      if i > 1 then
        let prev ← readAt rd_buf (i - 1)
        if prev = CR then
          let rd_buf ← writeAt rd_buf i 0
          let rd_buf ← writeAt rd_buf (i - 1) 0
          pure (.LINE_OK, i + 1, rd_buf)
        else pure (.LINE_BAD, i, rd_buf)
      else pure (.LINE_BAD, i, rd_buf)
    else parseLine rd_buf sz (i + 1)
  else pure (.LINE_OPEN, i, rd_buf)
termination_by sz - i

/-- The offset of the first byte at `s` or behind it that is no blank. -/
def skipBlanks (text : Bytes) (s : Nat) : Traced Nat Nat := do
  let str ← stringAt text s
  pure (s + strspn str blanks)

/-- What a target in absolute form does to the member `url`. -/
def absoluteTarget (req : HttpRequest) (text : Bytes) (_url : Nat) : Traced Nat HttpRequest := do
  let target ← stringAt text _url
  if strncasecmp target (ascii "http://") 7 = 0 then
    match strchr target 47 with
    | some k =>
      let url ← stringAt text (_url + k)
      pure { req with url }
    | none => pure { req with url := req.url ++ [7] }
  else pure req

def parseTarget (req : HttpRequest) (text : Bytes) (_url : Nat) :
    Traced Nat (HTTP_CODE × HttpRequest × Bytes) := do
  let _url ← skipBlanks text _url
  let rest ← stringAt text _url
  match strpbrk rest blanks with
  | none => pure (.BAD_REQUEST, req, text)
  | some n =>
    let text ← writeAt text (_url + n) 0
    let _version ← skipBlanks text (_url + n + 1)
    let version ← stringAt text _version
    if strcasecmp version (ascii "HTTP/1.1") ≠ 0 then pure (.BAD_REQUEST, req, text)
    else
      let req ← absoluteTarget req text _url
      let first ← readAt text _url
      if first ≠ 47 then pure (.BAD_REQUEST, req, text)
      else
        let url ← stringAt text _url
        let version ← stringAt text _version
        pure (.NO_REQUEST, { req with url, version, mCheckState := .CHECK_STATE_HEADER }, text)

def parseRequest (req : HttpRequest) (text : Bytes) : Traced Nat (HTTP_CODE × HttpRequest × Bytes) := do
  let line ← stringAt text 0
  match strpbrk line blanks with
  | none => pure (.BAD_REQUEST, req, text)
  | some n =>
    let text ← writeAt text n 0
    let _method ← stringAt text 0
    if strcasecmp _method (ascii "GET") = 0 then
      parseTarget { req with method := some .GET } text (n + 1)
    else if strcasecmp _method (ascii "POST") = 0 then
      parseTarget { req with method := some .POST } text (n + 1)
    else pure (.BAD_REQUEST, req, text)

def headerValue (text : Bytes) (n : Nat) : Traced Nat Bytes := do
  let checkptr ← skipBlanks text n
  stringAt text checkptr

def parseHeader (req : HttpRequest) (text : Bytes) : Traced Nat (HTTP_CODE × HttpRequest) := do
  let first ← readAt text 0
  if first = 0 then
    if req.contentLength ≠ 0 then pure (.NO_REQUEST, { req with mCheckState := .CHECK_STATE_BODY })
    else pure (.GET_REQUEST, { req with mCheckState := .CHECK_STATE_SUCCESS })
  else
    let checkptr ← stringAt text 0
    if strncasecmp checkptr (ascii "Connection:") 11 = 0 then
      let value ← headerValue text 11
      pure (.NO_REQUEST, { req with isAlive := strcasecmp value (ascii "keep-isAlive") = 0 })
    else if strncasecmp checkptr (ascii "Content-length:") 15 = 0 then
      let value ← headerValue text 15
      pure (.NO_REQUEST, { req with contentLength := atol value })
    else if strncasecmp checkptr (ascii "Host:") 5 = 0 then
      let value ← headerValue text 5
      pure (.NO_REQUEST, { req with host := value })
    else pure (.NO_REQUEST, req)

/-- `body.assign` throws before it reads. -/
def parseContent (req : HttpRequest) (text : Bytes) : Traced Nat (Option HTTP_CODE × HttpRequest) :=
  if (req.mCheckIndex : Int) ≥ req.contentLength then
    if req.contentLength < 0 then pure (none, req)
    else do
      let body ← readN text req.contentLength.toNat
      pure (some .GET_REQUEST, { req with body, mCheckState := .CHECK_STATE_SUCCESS })
  else pure (some .NO_REQUEST, req)

def dispatch (req : HttpRequest) (buf : FixedBuffer) : Traced Nat Round := do
  match req.mCheckState with
  | .CHECK_STATE_REQUEST =>
    match ← parseRequest req buf.text with
    | (.BAD_REQUEST, req, text) => pure (.done ⟨some .BAD_REQUEST, req, buf.setText text⟩)
    | (_, req, text) =>
      pure (.again { req with mCheckIndex := 0 } ((buf.setText text).readPtrMove req.mCheckIndex).2)
  | .CHECK_STATE_HEADER =>
    match ← parseHeader req buf.text with
    | (.BAD_REQUEST, req) => pure (.done ⟨some .BAD_REQUEST, req, buf⟩)
    | (.GET_REQUEST, req) =>
      pure (.done ⟨some .GET_REQUEST, { req with mCheckIndex := 0 }, (buf.readPtrMove req.mCheckIndex).2⟩)
    | (_, req) => pure (.again { req with mCheckIndex := 0 } (buf.readPtrMove req.mCheckIndex).2)
  | .CHECK_STATE_BODY =>
    let r ← parseContent req buf.text
    pure (.done ⟨r.1, r.2, buf⟩)
  | .CHECK_STATE_SUCCESS => pure (.again req buf)

def round (req : HttpRequest) (buf : FixedBuffer) : Traced Nat Round := do
  let (line, i, text) ← parseLine buf.text buf.used req.mCheckIndex
  let req := { req with mCheckIndex := i, mLineState := line }
  let buf := buf.setText text
  if line = .LINE_OPEN ∧ req.mCheckState ≠ .CHECK_STATE_BODY then pure (.done ⟨some .NO_REQUEST, req, buf⟩)
  else if line = .LINE_BAD then pure (.done ⟨some .BAD_REQUEST, req, buf⟩)
  else dispatch req buf

/-- At most `n` rounds, with the offsets of the bytes in the allocation. -/
def processRead : Nat → HttpRequest → FixedBuffer → Option (Traced Int Called)
  | 0, _, _ => none
  | n + 1, req, buf =>
    if buf.used > 0 then
      let this := (round req buf).relocate fun off : Nat => buf.mReadPtr + off
      match this.val with
      | .done out => some (this >>= fun _ => pure out)
      | .again req' buf' => (processRead n req' buf').map fun rest => this >>= fun _ => rest
    else some (pure ⟨some .NO_REQUEST, req, buf⟩)

theorem val_parseLine (rd_buf : Bytes) (sz i : Nat) :
    (parseLine rd_buf sz i).val = Http.parseLine rd_buf sz i := by
  fun_induction parseLine rd_buf sz i with
  | case1 i hlt ih =>
    rw [Http.parseLine]
    simp only [hlt, ↓reduceIte, Traced.val_bind, ↓Traced.val_ite, Traced.val_pure, val_readAt, val_writeAt, ih,
      ite_and]
    rfl
  | case2 i hge =>
    rw [Http.parseLine, if_neg hge]
    rfl

theorem val_absoluteTarget (req : HttpRequest) (text : Bytes) (_url : Nat) :
    (absoluteTarget req text _url).val =
      if strncasecmp (cstr (text.drop _url)) (ascii "http://") 7 = 0 then
        match strchr (cstr (text.drop _url)) 47 with
        | some k => { req with url := cstr (text.drop (_url + k)) }
        | none => { req with url := req.url ++ [7] }
      else req := by
  unfold absoluteTarget
  simp only [Traced.val_bind, ↓Traced.val_ite, val_stringAt, Traced.val_pure]
  cases strchr (cstr (text.drop _url)) 47 <;> rfl

theorem val_parseTarget (req : HttpRequest) (text : Bytes) (_url : Nat) :
    (parseTarget req text _url).val = HttpRequest.parseTarget req text _url := by
  unfold parseTarget HttpRequest.parseTarget
  simp only [skipBlanks, Traced.val_bind, val_stringAt, Traced.val_pure]
  cases strpbrk (cstr (text.drop (_url + strspn (cstr (text.drop _url)) blanks))) blanks with
  | none => rfl
  | some n =>
    simp only [Traced.val_bind, ↓Traced.val_ite, val_stringAt, val_writeAt, val_readAt, val_absoluteTarget,
      Traced.val_pure]
    rfl

theorem val_parseRequest (req : HttpRequest) (text : Bytes) :
    (parseRequest req text).val = HttpRequest.parseRequest req text := by
  unfold parseRequest HttpRequest.parseRequest
  simp only [Traced.val_bind, val_stringAt, List.drop_zero]
  cases strpbrk (cstr text) blanks with
  | none => rfl
  | some n =>
    simp only [Traced.val_bind, val_stringAt, List.drop_zero, Traced.val_pure, Traced.val_ite, val_writeAt,
      val_parseTarget]

theorem val_headerValue {text : Bytes} {n : Nat} (h : n ≤ (cstr text).length) :
    (headerValue text n).val = HttpRequest.headerValue (cstr text) n := by
  have hle := strspn_le_length (cstr (text.drop n)) blanks
  unfold headerValue HttpRequest.headerValue skipBlanks
  simp only [Traced.val_bind, val_stringAt, Traced.val_pure]
  rw [← List.drop_drop, cstr_drop_of_le hle, cstr_drop_of_le h]

theorem val_parseHeader (req : HttpRequest) (text : Bytes) :
    (parseHeader req text).val = HttpRequest.parseHeader req text := by
  have named : ∀ {name : Bytes} {n : Nat}, strncasecmp (cstr text) name n = 0 → 0 ∉ name → n ≤ name.length →
      (headerValue text n).val = HttpRequest.headerValue (cstr text) n :=
    fun h h0 hn => val_headerValue (le_length_of_strncasecmp h h0 hn)
  unfold parseHeader HttpRequest.parseHeader
  simp only [Traced.val_bind, ↓Traced.val_ite, val_readAt, val_stringAt, List.drop_zero, Traced.val_pure]
  split
  · rfl
  split
  · rw [named ‹_› (by decide) (by decide)]
  split
  · rw [named ‹_› (by decide) (by decide)]
  split
  · rw [named ‹_› (by decide) (by decide)]
  · rfl

theorem val_parseContent (req : HttpRequest) (text : Bytes) :
    (parseContent req text).val = HttpRequest.parseContent req text := by
  unfold parseContent HttpRequest.parseContent
  simp only [↓Traced.val_ite, Traced.val_bind, val_readN, Traced.val_pure]

theorem val_dispatch (req : HttpRequest) (buf : FixedBuffer) :
    (dispatch req buf).val = HttpRequest.dispatch req buf := by
  unfold dispatch HttpRequest.dispatch
  cases req.mCheckState with
  | CHECK_STATE_REQUEST =>
    simp only [Traced.val_bind, val_parseRequest]
    rcases req.parseRequest buf.text with ⟨code, req, text⟩
    cases code <;> rfl
  | CHECK_STATE_HEADER =>
    simp only [Traced.val_bind, val_parseHeader]
    rcases req.parseHeader buf.text with ⟨code, req⟩
    cases code <;> rfl
  | CHECK_STATE_BODY => simp only [Traced.val_bind, val_parseContent, Traced.val_pure]
  | CHECK_STATE_SUCCESS => rfl

theorem val_round (req : HttpRequest) (buf : FixedBuffer) :
    (round req buf).val = HttpRequest.round req buf := by
  unfold round HttpRequest.round
  simp only [Traced.val_bind, val_parseLine, ↓Traced.val_ite, val_dispatch, Traced.val_pure]

section
variable {text : Bytes} {m s : Nat}

/-- Skipping blanks stays in the string. -/
theorem skipBlanks_bound (h : NulAt text m) (hs : s ≤ m) :
    (skipBlanks text s).Within (· ≤ m) ∧ (skipBlanks text s).val ≤ m := by
  have hle := strspn_le_length (cstr (text.drop s)) blanks
  have hend := h.cstr_length_le hs
  refine ⟨?_, ?_⟩
  · simpa [skipBlanks] using h.stringAt hs
  · simp only [skipBlanks, Traced.val_bind, val_stringAt, Traced.val_pure]
    omega

theorem absoluteTarget_within (req : HttpRequest) (h : NulAt text m) (hs : s ≤ m) :
    (absoluteTarget req text s).Within (· ≤ m) := by
  unfold absoluteTarget
  rw [Traced.within_bind]
  refine ⟨h.stringAt hs, Traced.within_ite (fun _ => ?_) fun _ => Traced.within_pure _⟩
  rw [val_stringAt]
  cases hslash : strchr (cstr (text.drop s)) 47 with
  | none => exact Traced.within_pure _
  | some k =>
    have hk := (List.findIdx?_eq_some_iff_findIdx_eq.mp hslash).1
    have hend := h.cstr_length_le hs
    simpa using h.stringAt (show s + k ≤ m by omega)

theorem parseTarget_within (req : HttpRequest) (h : NulAt text m) (hs : s ≤ m) :
    (parseTarget req text s).Within (· ≤ m) := by
  unfold parseTarget
  obtain ⟨hskip, hurl⟩ := skipBlanks_bound h hs
  rw [Traced.within_bind, Traced.within_bind]
  refine ⟨hskip, h.stringAt hurl, ?_⟩
  generalize (skipBlanks text s).val = _url at hurl ⊢
  rw [val_stringAt]
  cases hblank : strpbrk (cstr (text.drop _url)) blanks with
  | none => exact Traced.within_pure _
  | some n =>
    have hn := lt_length_of_strpbrk hblank
    have hend := h.cstr_length_le hurl
    have h' := h.set (_url + n)
    obtain ⟨hskip', hversion⟩ := skipBlanks_bound (s := _url + n + 1) h' (by omega)
    simp only [Traced.within_bind, within_writeAt, val_writeAt]
    refine ⟨by omega, hskip', h'.stringAt hversion,
      Traced.within_ite (fun _ => Traced.within_pure _) fun _ => ?_⟩
    simp only [Traced.within_bind, within_readAt]
    refine ⟨absoluteTarget_within _ h' hurl, hurl,
      Traced.within_ite (fun _ => Traced.within_pure _) fun _ => ?_⟩
    simp only [Traced.within_bind]
    exact ⟨h'.stringAt hurl, h'.stringAt hversion, Traced.within_pure _⟩

theorem parseRequest_within (req : HttpRequest) (h : NulAt text m) :
    (parseRequest req text).Within (· ≤ m) := by
  unfold parseRequest
  rw [Traced.within_bind]
  refine ⟨h.stringAt (Nat.zero_le m), ?_⟩
  rw [val_stringAt]
  cases hblank : strpbrk (cstr (text.drop 0)) blanks with
  | none => exact Traced.within_pure _
  | some n =>
    have hn := lt_length_of_strpbrk hblank
    have hend := h.cstr_length_le (Nat.zero_le m)
    have h' := h.set n
    simp only [Traced.within_bind, within_writeAt, val_writeAt]
    refine ⟨by omega, h'.stringAt (Nat.zero_le m), ?_⟩
    refine Traced.within_ite (fun _ => parseTarget_within _ h' (by omega)) fun _ => ?_
    exact Traced.within_ite (fun _ => parseTarget_within _ h' (by omega)) fun _ => Traced.within_pure _

theorem headerValue_within (h : NulAt text m) (hs : s ≤ m) : (headerValue text s).Within (· ≤ m) := by
  obtain ⟨hskip, hvalue⟩ := skipBlanks_bound h hs
  unfold headerValue
  rw [Traced.within_bind]
  exact ⟨hskip, h.stringAt hvalue⟩

theorem parseHeader_within (req : HttpRequest) (h : NulAt text m) :
    (parseHeader req text).Within (· ≤ m) := by
  have hend := h.cstr_length_le (Nat.zero_le m)
  -- a name that has been compared lies before the terminator
  have named : ∀ {name : Bytes} {n : Nat}, strncasecmp (cstr (text.drop 0)) name n = 0 → 0 ∉ name →
      n ≤ name.length → (headerValue text n).Within (· ≤ m) := by
    intro name n hname h0 hn
    have hle := le_length_of_strncasecmp hname h0 hn
    exact headerValue_within h (by omega)
  unfold parseHeader
  rw [Traced.within_bind, within_readAt]
  refine ⟨Nat.zero_le m, Traced.within_ite (fun _ => ?_) fun _ => ?_⟩
  · exact Traced.within_ite (fun _ => Traced.within_pure _) fun _ => Traced.within_pure _
  rw [Traced.within_bind, val_stringAt]
  refine ⟨h.stringAt (Nat.zero_le m), Traced.within_ite (fun hname => ?_) fun _ => ?_⟩
  · exact (Traced.within_bind _ _).mpr ⟨named hname (by decide) (by decide), Traced.within_pure _⟩
  refine Traced.within_ite (fun hname => ?_) fun _ => ?_
  · exact (Traced.within_bind _ _).mpr ⟨named hname (by decide) (by decide), Traced.within_pure _⟩
  refine Traced.within_ite (fun hname => ?_) fun _ => Traced.within_pure _
  exact (Traced.within_bind _ _).mpr ⟨named hname (by decide) (by decide), Traced.within_pure _⟩

end

theorem parseLine_within (rd_buf : Bytes) (sz i : Nat) : (parseLine rd_buf sz i).Within (· < sz) := by
  fun_induction parseLine rd_buf sz i with
  | case2 => exact Traced.within_pure _
  | case1 i hlt ih =>
    rw [Traced.within_bind, within_readAt]
    refine ⟨hlt, Traced.within_ite (fun _ => ?_) fun _ => Traced.within_ite (fun _ => ?_) fun _ => ih⟩
    · refine Traced.within_ite (fun _ => Traced.within_pure _) fun hlast => ?_
      rw [Traced.within_bind, within_readAt]
      refine ⟨by omega, Traced.within_ite (fun _ => ?_) fun _ => Traced.within_pure _⟩
      simp only [Traced.within_bind, within_writeAt]
      exact ⟨hlt, by omega, Traced.within_pure _⟩
    · refine Traced.within_ite (fun _ => ?_) fun _ => Traced.within_pure _
      rw [Traced.within_bind, within_readAt]
      refine ⟨by omega, Traced.within_ite (fun _ => ?_) fun _ => Traced.within_pure _⟩
      simp only [Traced.within_bind, within_writeAt]
      exact ⟨hlt, by omega, Traced.within_pure _⟩

/-- What a scan leaves: a completed line has two NULs at its end. -/
structure Scan (rd_buf : Bytes) (sz : Nat) (out : LINE_STATE × Nat × Bytes) : Prop where
  index_le : out.2.1 ≤ sz
  length_eq : out.2.2.length = rd_buf.length
  nul : out.1 = .LINE_OK → ∃ m, out.2.1 = m + 2 ∧ NulAt out.2.2 m

theorem parseLine_scan {rd_buf : Bytes} {sz i : Nat} (hi : i ≤ sz) (hsz : sz ≤ rd_buf.length) :
    Scan rd_buf sz (Http.parseLine rd_buf sz i) := by
  fun_induction Http.parseLine rd_buf sz i with
  | case1 i hlt | case3 i hlt | case5 i hlt => exact ⟨hlt.le, rfl, fun h => (by cases h)⟩
  | case7 i => exact ⟨hi, rfl, fun h => (by cases h)⟩
  | case2 i hlt ch hcr hlast hlf =>
    refine ⟨by dsimp only; omega, by simp, fun _ => ⟨i, rfl, ?_⟩⟩
    have hset : NulAt (rd_buf.set i 0) i := by
      simp [NulAt, List.getElem?_set_self (show i < rd_buf.length by omega)]
    exact hset.set (i + 1)
  | case4 i hlt ch hcr hlf hprev =>
    refine ⟨by dsimp only; omega, by simp, fun _ => ⟨i - 1, by dsimp only; omega, ?_⟩⟩
    have hin : i - 1 < (rd_buf.set i 0).length := by rw [List.length_set]; omega
    simp [NulAt, List.getElem?_set_self hin]
  | case6 i hlt ch hcr hlf ih => exact ih hlt

/-- The buffer and the index after a round, next to the buffer before it. -/
structure Kept (b : FixedBuffer) (req' : HttpRequest) (b' : FixedBuffer) : Prop where
  ok : b'.Ok
  index_le : req'.mCheckIndex ≤ b'.used
  read_le : b.mReadPtr ≤ b'.mReadPtr
  write_eq : b'.mWritePtr = b.mWritePtr

def KeptBy (b : FixedBuffer) : Round → Prop
  | .done out => Kept b out.req out.buf
  | .again req' b' => Kept b req' b'

theorem KeptBy.of_setText {b : FixedBuffer} {text : Bytes} {o : Round} (h : KeptBy (b.setText text) o) :
    KeptBy b o := by
  cases o with
  | done out => exact ⟨h.ok, h.index_le, h.read_le, h.write_eq⟩
  | again req' b' => exact ⟨h.ok, h.index_le, h.read_le, h.write_eq⟩

section
variable {req : HttpRequest} {b : FixedBuffer}

theorem parseTarget_length (req : HttpRequest) (text : Bytes) (n : Nat) :
    (HttpRequest.parseTarget req text n).2.2.length = text.length := by
  simp only [HttpRequest.parseTarget]
  repeat' split
  all_goals simp only [List.length_set]

theorem parseRequest_length (req : HttpRequest) (text : Bytes) :
    (HttpRequest.parseRequest req text).2.2.length = text.length := by
  simp only [HttpRequest.parseRequest]
  repeat' split
  all_goals simp only [parseTarget_length, List.length_set]

theorem parseContent_index (req : HttpRequest) (text : Bytes) :
    (HttpRequest.parseContent req text).2.mCheckIndex = req.mCheckIndex := by
  unfold HttpRequest.parseContent
  repeat' split
  all_goals rfl

/-- Consuming a line that ends within the unread bytes. -/
theorem kept_readPtrMove (hok : b.Ok) (req' : HttpRequest) {n : Nat} (hn : n ≤ b.used) :
    Kept b { req' with mCheckIndex := 0 } (b.readPtrMove n).2 := by
  refine ⟨(hok.readPtrMove hn).2.1, Nat.zero_le _, ?_, ?_⟩
  · rw [FixedBuffer.readPtrMove_snd]
    dsimp only
    omega
  · rw [FixedBuffer.readPtrMove_snd]

/-- A line that has been completed, or any bytes of the body. -/
theorem dispatch_bound (hok : b.Ok) (hi : req.mCheckIndex ≤ b.used)
    (hline : req.mCheckState ≠ .CHECK_STATE_BODY → ∃ m, req.mCheckIndex = m + 2 ∧ NulAt b.text m) :
    (dispatch req b).Within (· < b.used) ∧ KeptBy b (HttpRequest.dispatch req b) := by
  have inLine : ∀ {m : Nat}, req.mCheckIndex = m + 2 → ∀ p ≤ m, p < b.used := fun hm p hp => by omega
  unfold dispatch HttpRequest.dispatch
  cases hst : req.mCheckState with
  | CHECK_STATE_REQUEST =>
    obtain ⟨m, hm, hnul⟩ := hline (by simp [hst])
    have hindex := HttpRequest.parseRequest_index req b.text
    have hlength := parseRequest_length req b.text
    constructor
    · rw [Traced.within_bind]
      refine ⟨(parseRequest_within req hnul).mono (inLine hm), ?_⟩
      split <;> exact Traced.within_pure _
    · generalize HttpRequest.parseRequest req b.text = p at hindex hlength ⊢
      obtain ⟨code, req', text'⟩ := p
      obtain ⟨hok', _⟩ := hok.setText (t := text') hlength
      have hconsumed := kept_readPtrMove hok' req' (n := req'.mCheckIndex) (hindex ▸ hi)
      have hrefused : Kept b req' (b.setText text') := ⟨hok', hindex ▸ hi, Int.le_refl _, rfl⟩
      cases code
      case BAD_REQUEST => exact hrefused
      all_goals exact ⟨hconsumed.ok, hconsumed.index_le, hconsumed.read_le, hconsumed.write_eq⟩
  | CHECK_STATE_HEADER =>
    obtain ⟨m, hm, hnul⟩ := hline (by simp [hst])
    have hindex := HttpRequest.parseHeader_index req b.text
    constructor
    · rw [Traced.within_bind]
      refine ⟨(parseHeader_within req hnul).mono (inLine hm), ?_⟩
      split <;> exact Traced.within_pure _
    · generalize HttpRequest.parseHeader req b.text = p at hindex ⊢
      obtain ⟨code, req'⟩ := p
      have hconsumed := kept_readPtrMove hok req' (n := req'.mCheckIndex) (hindex ▸ hi)
      have hrefused : Kept b req' b := ⟨hok, hindex ▸ hi, Int.le_refl _, rfl⟩
      cases code
      all_goals first | exact hconsumed | exact hrefused
  | CHECK_STATE_BODY =>
    have hsame := parseContent_index req b.text
    refine ⟨(Traced.within_bind _ _).mpr ⟨?_, Traced.within_pure _⟩, hok, hsame ▸ hi, Int.le_refl _, rfl⟩
    unfold parseContent
    refine Traced.within_ite (fun hfull => ?_) fun _ => Traced.within_pure _
    refine Traced.within_ite (fun _ => Traced.within_pure _) fun _ => ?_
    refine (Traced.within_bind _ _).mpr ⟨(within_readN _ _).mono fun p hp => ?_, Traced.within_pure _⟩
    omega
  | CHECK_STATE_SUCCESS => exact ⟨Traced.within_pure _, hok, hi, Int.le_refl _, rfl⟩

theorem round_bound (hok : b.Ok) (hi : req.mCheckIndex ≤ b.used) :
    (round req b).Within (· < b.used) ∧ KeptBy b (round req b).val := by
  have hsz : b.used ≤ b.text.length := by
    rw [hok.text_eq, List.length_append, hok.unread_length]
    exact Nat.le_add_right _ _
  have hscan := parseLine_scan hi hsz
  unfold round
  simp only [Traced.within_bind, Traced.val_bind, val_parseLine]
  generalize Http.parseLine b.text b.used req.mCheckIndex = p at hscan ⊢
  obtain ⟨line, i, text⟩ := p
  obtain ⟨hindex, hlength, hnul⟩ := hscan
  obtain ⟨hok', htext⟩ := hok.setText (t := text) hlength
  have hleft : Kept b { req with mCheckIndex := i, mLineState := line } (b.setText text) :=
    ⟨hok', hindex, Int.le_refl _, rfl⟩
  by_cases hopen : line = .LINE_OPEN ∧ req.mCheckState ≠ .CHECK_STATE_BODY
  · simp only [hopen, ne_eq, not_false_eq_true, and_self, ↓reduceIte]
    exact ⟨⟨parseLine_within _ _ _, Traced.within_pure _⟩, hopen.1 ▸ hleft⟩
  by_cases hbad : line = .LINE_BAD
  · simp only [hbad, reduceCtorEq, false_and, ↓reduceIte]
    exact ⟨⟨parseLine_within _ _ _, Traced.within_pure _⟩, hbad ▸ hleft⟩
  simp only [hopen, hbad, ↓reduceIte, val_dispatch]
  -- a line that is not complete is dispatched in the body state only
  have hscanned : ({ req with mCheckIndex := i, mLineState := line } : HttpRequest).mCheckIndex ≤ b.used :=
    hindex
  have hdispatch := dispatch_bound hok' hscanned
    fun hbody => htext.symm ▸ hnul (by cases line <;> simp_all)
  exact ⟨⟨parseLine_within _ _ _, hdispatch.1⟩, hdispatch.2.of_setText⟩

end

/-- What a call keeps: every byte it touches lies in the unread region at its beginning. -/
structure Inside (req : HttpRequest) (b : FixedBuffer) (t : Traced Int Called) : Prop where
  result : t.val = HttpRequest.processRead req b
  touched : t.Within fun p => b.mReadPtr ≤ p ∧ p < b.mWritePtr
  pointers : ∀ p ∈ HttpRequest.rounds req b, p.2.mReadPtr ≤ b.mWritePtr
  read_ge : b.mReadPtr ≤ t.val.buf.mReadPtr
  read_le : t.val.buf.mReadPtr ≤ b.mWritePtr
  write_eq : t.val.buf.mWritePtr = b.mWritePtr
  index_le : t.val.req.mCheckIndex ≤ t.val.buf.used
  ok : t.val.buf.Ok

section
variable {req req' : HttpRequest} {b b' : FixedBuffer}

theorem Kept.inside_done (h : Kept b req' b') {t : Traced Int Called}
    (hval : t.val = HttpRequest.processRead req b)
    (hreq : t.val.req = req') (hbuf : t.val.buf = b')
    (htouched : t.Within fun p => b.mReadPtr ≤ p ∧ p < b.mWritePtr)
    (hpointers : ∀ p ∈ HttpRequest.rounds req b, p.2.mReadPtr ≤ b.mWritePtr) : Inside req b t := by
  subst hreq hbuf
  exact ⟨hval, htouched, hpointers, h.read_le, h.write_eq ▸ h.ok.ordered, h.write_eq, h.index_le, h.ok⟩

/-- Enough rounds end the call. -/
theorem processRead_inside_of_fuel (fuel : Nat) (req : HttpRequest) (b : FixedBuffer) (hok : b.Ok)
    (hi : req.mCheckIndex ≤ b.used) (hfuel : b.used - req.mCheckIndex < fuel) :
    ∃ t, processRead fuel req b = some t ∧ Inside req b t := by
  induction fuel generalizing req b with
  | zero => omega
  | succ fuel ih =>
    have hused := hok.used_eq
    have hordered := hok.ordered
    unfold processRead
    by_cases h0 : b.used = 0
    · rw [if_neg (by omega)]
      refine ⟨_, rfl, ?_⟩
      exact ⟨(HttpRequest.processRead_empty h0).symm, Traced.within_pure _,
        by rw [HttpRequest.rounds_empty h0]; simp, Int.le_refl _, hordered, rfl, hi, hok⟩
    have hpos : 0 < b.used := by omega
    obtain ⟨hwithin, hkept⟩ := round_bound hok hi
    have htouched : ((round req b).relocate fun off : Nat => b.mReadPtr + off).Within
        fun p => b.mReadPtr ≤ p ∧ p < b.mWritePtr := by
      refine (Traced.within_relocate _ _).mpr (hwithin.mono fun p hp => ?_)
      omega
    rw [if_pos hpos]
    simp only [Traced.val_relocate]
    rw [val_round] at hkept ⊢
    cases hround : HttpRequest.round req b with
    | done out =>
      rw [hround] at hkept
      refine ⟨_, rfl, hkept.inside_done ?_ rfl rfl ?_ ?_⟩
      · exact (HttpRequest.processRead_done hpos hround).symm
      · exact (Traced.within_bind _ _).mpr ⟨htouched, Traced.within_pure _⟩
      · rw [HttpRequest.rounds_done hpos hround]
        simpa using hordered
    | again req' b' =>
      rw [hround] at hkept
      have hless := HttpRequest.round_again hround
      obtain ⟨t, ht, inside⟩ := ih req' b' hkept.ok hkept.index_le (by omega)
      have hread := hkept.read_le
      have hwrite := hkept.write_eq
      dsimp only
      rw [ht]
      refine ⟨_, rfl, ?_⟩
      refine ⟨?_, ?_, ?_, Int.le_trans hread inside.read_ge, ?_, ?_, inside.index_le, inside.ok⟩
      · exact inside.result.trans (HttpRequest.processRead_again hpos hround).symm
      · refine (Traced.within_bind _ _).mpr ⟨htouched, inside.touched.mono fun p hp => ?_⟩
        omega
      · rw [HttpRequest.rounds_again hpos hround]
        intro p hp
        rcases List.mem_cons.mp hp with rfl | hp
        · exact hordered
        · exact hwrite ▸ inside.pointers p hp
      · exact hwrite ▸ inside.read_le
      · exact inside.write_eq.trans hwrite

end

/-- No call adds unread bytes. -/
theorem used_processRead_le (req : HttpRequest) (b : FixedBuffer) (hok : b.Ok)
    (hi : req.mCheckIndex ≤ b.used) :
    (HttpRequest.processRead req b).buf.used ≤ b.used := by
  obtain ⟨t, _, inside⟩ := processRead_inside_of_fuel (b.used + 1) req b hok hi (by omega)
  have hread := inside.read_ge
  have hwrite := inside.write_eq
  rw [← inside.result, inside.ok.used_eq, hok.used_eq]
  omega

/-- Appends, calls whatever they return, and `Init` after a request. -/
inductive Step : Called → Called → Prop where
  | append (s : Called) (chunk : Bytes) : Step s { s with buf := (s.buf.append chunk).buf }
  | call (s : Called) : Step s (HttpRequest.processRead s.req s.buf)
  | init (s : Called) (got : s.ret = some .GET_REQUEST) : Step s { s with req := s.req.Init }

def Fresh (s : Called) : Prop := ∃ mem : Bytes, mem.length < 2 ^ 31 ∧ s = .start mem

/-- The pointers are in order, and the saved index lies within the unread bytes. -/
structure Scannable (s : Called) : Prop where
  ok : s.buf.Ok
  index_le : s.req.mCheckIndex ≤ s.buf.used

theorem Scannable.step {s s' : Called} (h : Scannable s) (hstep : Step s s') : Scannable s' := by
  cases hstep with
  | append chunk =>
    have happ := h.ok.append chunk
    exact ⟨happ.ok, h.index_le.trans (happ.used_le h.ok)⟩
  | call =>
    obtain ⟨t, _, inside⟩ := processRead_inside_of_fuel (s.buf.used + 1) s.req s.buf h.ok h.index_le (by omega)
    exact ⟨inside.result ▸ inside.ok, inside.result ▸ inside.index_le⟩
  | init got => exact ⟨h.ok, Nat.zero_le _⟩

theorem scannable_of_reachable {s : Called} (h : Reachable Fresh Step s) : Scannable s := by
  refine h.invariant (fun s hfresh => ?_) fun s s' hs hstep => hs.step hstep
  obtain ⟨mem, hmem, rfl⟩ := hfresh
  exact ⟨FixedBuffer.fresh_ok hmem, Nat.zero_le _⟩

/-- From every reachable state, whatever bytes the buffer holds, a call ends and stays inside the
unread bytes. -/
theorem processRead_inside (s : Called) (h : Reachable Fresh Step s) (mem : Bytes)
    (hmem : mem.length = s.buf.mem.length) :
    ∃ t, processRead (s.buf.used + 1) s.req { s.buf with mem } = some t ∧
      Inside s.req { s.buf with mem } t := by
  obtain ⟨⟨hlength, hcap, hstart, hordered, hend⟩, hindex⟩ := scannable_of_reachable h
  have hused : ({ s.buf with mem } : FixedBuffer).used = s.buf.used := rfl
  exact processRead_inside_of_fuel _ s.req _ ⟨hmem.trans hlength, hcap, hstart, hordered, hend⟩ hindex
    (by omega)

/-- A request line that has been appended, and other bytes in its place. -/
theorem processRead_inside_replaced :
    ∃ t, processRead 17 {} ⟨List.replicate 64 LF, 64, 0, 16⟩ = some t ∧
      Inside {} ⟨List.replicate 64 LF, 64, 0, 16⟩ t :=
  processRead_inside { Called.start (List.replicate 64 0) with
      buf := ((FixedBuffer.fresh (List.replicate 64 0)).append (ascii "GET / HTTP/1.1\r\n")).buf }
    ((Reachable.start ⟨List.replicate 64 0, by decide, rfl⟩).tail (.append _ _)) (List.replicate 64 LF)
      (by decide)

end Knpnl.Http.Access
