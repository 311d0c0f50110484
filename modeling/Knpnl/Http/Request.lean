import Knpnl.Base.Buffer

/-!
# `net/http/HttpRequest`: the incremental request parser

The parser works in place on the bytes from `readPtr()` on: a completed line has its
CR LF overwritten by two NULs, so the line is then a C string. `parseLine` keeps its
position in `mCheckIndex` between calls, and `processRead` is the loop over lines.
-/
namespace Knpnl.Http

open Lib.CString
open Base (FixedBuffer)

inductive METHOD where
  | GET | POST | HEAD | PUT | DELETE | TRACE | OPTIONS | CONNECT | PATH
  deriving DecidableEq

inductive HTTP_CODE where
  | NO_REQUEST | GET_REQUEST | BAD_REQUEST | NO_RESOURCE | FORBIDDEN_REQUEST | FILE_REQUEST
  | INTERNAL_ERROR | CLOSED_CONNECTION
  deriving DecidableEq

inductive LINE_STATE where
  | LINE_OK | LINE_OPEN | LINE_BAD
  deriving DecidableEq

inductive CHECK_STATE where
  | CHECK_STATE_REQUEST | CHECK_STATE_HEADER | CHECK_STATE_BODY | CHECK_STATE_SUCCESS
  deriving DecidableEq

/-- The public fields a request head determines. `method` has no initial value. -/
structure Head where
  url : Bytes := []
  version : Bytes := []
  host : Bytes := []
  isAlive : Bool := false
  method : Option METHOD := none
  contentLength : Int := 0
  deriving DecidableEq

/-- A new `HttpRequest` has every field at its default here. -/
structure HttpRequest extends Head where
  body : Bytes := []
  mCheckIndex : Nat := 0
  mCheckState : CHECK_STATE := .CHECK_STATE_REQUEST
  mLineState : LINE_STATE := .LINE_OPEN
  deriving DecidableEq

def CR : UInt8 := 13
def LF : UInt8 := 10

/-- `" \t"` -/
def blanks : Bytes := [32, 9]

/-- The line scanner, from index `i` over the first `sz` bytes of `rd_buf`. -/
def parseLine (rd_buf : Bytes) (sz i : Nat) : LINE_STATE × Nat × Bytes :=
  if i < sz then
    let ch := rd_buf.getD i 0
    if ch = CR then
      if i + 1 = sz then (.LINE_OPEN, i, rd_buf)
      else if rd_buf.getD (i + 1) 0 = LF then
        (.LINE_OK, i + 2, (rd_buf.set i 0).set (i + 1) 0)
      else (.LINE_BAD, i, rd_buf)
    else if ch = LF then
      if i > 1 ∧ rd_buf.getD (i - 1) 0 = CR then
        (.LINE_OK, i + 1, (rd_buf.set i 0).set (i - 1) 0)
      else (.LINE_BAD, i, rd_buf)
    else parseLine rd_buf sz (i + 1)
  else (.LINE_OPEN, i, rd_buf)
termination_by sz - i

namespace HttpRequest

/-- `Init` leaves `mCheckState` alone: its first line assigns `mCheckIndex` twice. -/
def Init (req : HttpRequest) : HttpRequest := { req with mCheckIndex := 0, mLineState := .LINE_OPEN }

/-- The part of `parseRequest` after the method. `_url` is an offset into `text`. -/
def parseTarget (req : HttpRequest) (text : Bytes) (_url : Nat) : HTTP_CODE × HttpRequest × Bytes :=
  let _url := _url + strspn (cstr (text.drop _url)) blanks
  match strpbrk (cstr (text.drop _url)) blanks with
  | none => (.BAD_REQUEST, req, text)
  | some n =>
    let text := text.set (_url + n) 0
    let _version := _url + n + 1
    let _version := _version + strspn (cstr (text.drop _version)) blanks
    if strcasecmp (cstr (text.drop _version)) (ascii "HTTP/1.1") ≠ 0 then (.BAD_REQUEST, req, text)
    else
      -- `url += 7` appends a byte to the member `url`; the pointer `_url` stays put
      let req :=
        if strncasecmp (cstr (text.drop _url)) (ascii "http://") 7 = 0 then
          match strchr (cstr (text.drop _url)) 47 with
          | some k => { req with url := cstr (text.drop (_url + k)) }
          | none => { req with url := req.url ++ [7] }
        else req
      if text.getD _url 0 ≠ 47 then (.BAD_REQUEST, req, text)
      else
        (.NO_REQUEST,
          { req with
            url := cstr (text.drop _url)
            version := cstr (text.drop _version)
            mCheckState := .CHECK_STATE_HEADER },
          text)

def parseRequest (req : HttpRequest) (text : Bytes) : HTTP_CODE × HttpRequest × Bytes :=
  match strpbrk (cstr text) blanks with
  | none => (.BAD_REQUEST, req, text)
  | some n =>
    let text := text.set n 0
    if strcasecmp (cstr text) (ascii "GET") = 0 then
      parseTarget { req with method := some .GET } text (n + 1)
    else if strcasecmp (cstr text) (ascii "POST") = 0 then
      parseTarget { req with method := some .POST } text (n + 1)
    else (.BAD_REQUEST, req, text)

/-- The text after a header name of `n` bytes and the blanks that follow it. -/
def headerValue (checkptr : Bytes) (n : Nat) : Bytes :=
  (checkptr.drop n).drop (strspn (checkptr.drop n) blanks)

def parseHeader (req : HttpRequest) (text : Bytes) : HTTP_CODE × HttpRequest :=
  let checkptr := cstr text
  if text.getD 0 0 = 0 then
    if req.contentLength ≠ 0 then (.NO_REQUEST, { req with mCheckState := .CHECK_STATE_BODY })
    else (.GET_REQUEST, { req with mCheckState := .CHECK_STATE_SUCCESS })
  else if strncasecmp checkptr (ascii "Connection:") 11 = 0 then
    let alive := strcasecmp (headerValue checkptr 11) (ascii "keep-isAlive") = 0
    (.NO_REQUEST, { req with isAlive := alive })
  else if strncasecmp checkptr (ascii "Content-length:") 15 = 0 then
    (.NO_REQUEST, { req with contentLength := atol (headerValue checkptr 15) })
  else if strncasecmp checkptr (ascii "Host:") 5 = 0 then
    (.NO_REQUEST, { req with host := headerValue checkptr 5 })
  else (.NO_REQUEST, req)

/-- `none` is the `std::length_error` of `body.assign` with a negative length. -/
def parseContent (req : HttpRequest) (text : Bytes) : Option HTTP_CODE × HttpRequest :=
  if (req.mCheckIndex : Int) ≥ req.contentLength then
    if req.contentLength < 0 then (none, req)
    else
      (some .GET_REQUEST,
        { req with
          body := text.take req.contentLength.toNat
          mCheckState := .CHECK_STATE_SUCCESS })
  else (some .NO_REQUEST, req)

/-- What a call of `processRead` returns and leaves. `ret` is `none` if it throws. -/
structure Called where
  ret : Option HTTP_CODE
  req : HttpRequest
  buf : FixedBuffer
  deriving DecidableEq

/-- One round of the loop in `processRead`: it returns, or goes round again. -/
inductive Round where
  | done (out : Called)
  | again (req : HttpRequest) (buf : FixedBuffer)

/-- The cases of the `switch`, for a line that ends at `mCheckIndex`. -/
def dispatch (req : HttpRequest) (buf : FixedBuffer) : Round :=
  match req.mCheckState with
  | .CHECK_STATE_REQUEST =>
    match parseRequest req buf.text with
    | (.BAD_REQUEST, req, text) => .done ⟨some .BAD_REQUEST, req, buf.setText text⟩
    | (_, req, text) =>
      .again { req with mCheckIndex := 0 } ((buf.setText text).readPtrMove req.mCheckIndex).2
  | .CHECK_STATE_HEADER =>
    match parseHeader req buf.text with
    | (.BAD_REQUEST, req) => .done ⟨some .BAD_REQUEST, req, buf⟩
    | (.GET_REQUEST, req) =>
      .done ⟨some .GET_REQUEST, { req with mCheckIndex := 0 }, (buf.readPtrMove req.mCheckIndex).2⟩
    | (_, req) => .again { req with mCheckIndex := 0 } (buf.readPtrMove req.mCheckIndex).2
  | .CHECK_STATE_BODY =>
    let r := parseContent req buf.text
    .done ⟨r.1, r.2, buf⟩
  -- the switch has no case for `CHECK_STATE_SUCCESS`
  | .CHECK_STATE_SUCCESS => .again req buf

def round (req : HttpRequest) (buf : FixedBuffer) : Round :=
  let (line, i, text) := parseLine buf.text buf.used req.mCheckIndex
  let req := { req with mCheckIndex := i, mLineState := line }
  let buf := buf.setText text
  if line = .LINE_OPEN ∧ req.mCheckState ≠ .CHECK_STATE_BODY then .done ⟨some .NO_REQUEST, req, buf⟩
  else if line = .LINE_BAD then .done ⟨some .BAD_REQUEST, req, buf⟩
  else dispatch req buf

end HttpRequest

/-- A completed line ends past the index where the scan began, and within the text. -/
theorem parseLine_ok {rd_buf text : Bytes} {sz i j : Nat}
    (h : parseLine rd_buf sz i = (.LINE_OK, j, text)) : i < j ∧ j ≤ sz := by
  fun_induction parseLine rd_buf sz i with
  | case1 | case3 | case5 | case7 => simp at h
  | case2 =>
    simp only [Prod.mk.injEq, true_and] at h
    omega
  | case4 =>
    simp only [Prod.mk.injEq, true_and] at h
    omega
  | case6 _ _ _ _ _ ih =>
    have := ih h
    omega

/-- Consuming `n` of the unread bytes, whatever the order of the pointers. -/
theorem used_readPtrMove {b : FixedBuffer} {n : Nat} (h : n ≤ b.used) :
    (b.readPtrMove n).2.used = b.used - n := by
  rw [FixedBuffer.readPtrMove_snd]
  simp only [FixedBuffer.used, Base.sizeT] at h ⊢
  omega

namespace HttpRequest

theorem parseTarget_index (req : HttpRequest) (text : Bytes) (n : Nat) :
    (parseTarget req text n).2.1.mCheckIndex = req.mCheckIndex := by
  simp only [parseTarget]
  repeat' split
  all_goals rfl

theorem parseRequest_index (req : HttpRequest) (text : Bytes) :
    (parseRequest req text).2.1.mCheckIndex = req.mCheckIndex := by
  simp only [parseRequest]
  repeat' split
  all_goals simp only [parseTarget_index]

theorem parseHeader_index (req : HttpRequest) (text : Bytes) :
    (parseHeader req text).2.mCheckIndex = req.mCheckIndex := by
  simp only [parseHeader]
  repeat' split
  all_goals rfl

/-- Another round follows a completed line only, and leaves less to scan. -/
theorem dispatch_again {req req' : HttpRequest} {buf buf' : FixedBuffer}
    (hi : req.mCheckIndex ≤ buf.used) (h : dispatch req buf = .again req' buf') :
    buf'.used - req'.mCheckIndex ≤ buf.used - req.mCheckIndex := by
  unfold dispatch at h
  split at h
  · have hidx := parseRequest_index req buf.text
    split at h
    · cases h
    · rename_i r t _ heq
      rw [heq] at hidx
      simp only [Round.again.injEq] at h
      obtain ⟨rfl, rfl⟩ := h
      have hu : (buf.setText t).used = buf.used := rfl
      simp only at hidx ⊢
      rw [hidx, used_readPtrMove (by rw [hu]; exact hi), hu]
      omega
  · have hidx := parseHeader_index req buf.text
    split at h
    · cases h
    · cases h
    · rename_i r _ _ heq
      rw [heq] at hidx
      simp only [Round.again.injEq] at h
      obtain ⟨rfl, rfl⟩ := h
      simp only at hidx ⊢
      rw [hidx, used_readPtrMove hi]
      omega
  · cases h
  · simp only [Round.again.injEq] at h
    obtain ⟨rfl, rfl⟩ := h
    exact le_rfl

theorem round_again {req req' : HttpRequest} {buf buf' : FixedBuffer}
    (h : round req buf = .again req' buf') :
    buf'.used - req'.mCheckIndex < buf.used - req.mCheckIndex := by
  unfold round at h
  rcases hl : parseLine buf.text buf.used req.mCheckIndex with ⟨line, i, text⟩
  simp only [hl] at h
  have hu : (buf.setText text).used = buf.used := rfl
  cases line with
  | LINE_OK =>
    obtain ⟨hlt, hle⟩ := parseLine_ok hl
    simp only [reduceCtorEq, false_and, ↓reduceIte] at h
    have hd := dispatch_again (by rw [hu]; exact hle) h
    simp only [hu] at hd
    omega
  | LINE_OPEN =>
    by_cases hb : req.mCheckState = .CHECK_STATE_BODY
    · simp [hb, dispatch] at h
    · simp [hb] at h
  | LINE_BAD => simp at h

/-- `while(buf->used()>0)` -/
def processRead (req : HttpRequest) (buf : FixedBuffer) : Called :=
  if buf.used > 0 then
    match _h : round req buf with
    | .done out => out
    | .again req' buf' => processRead req' buf'
  else ⟨some .NO_REQUEST, req, buf⟩
termination_by buf.used - req.mCheckIndex
decreasing_by exact round_again ‹_›

theorem processRead_empty {req : HttpRequest} {buf : FixedBuffer} (h : buf.used = 0) :
    processRead req buf = ⟨some .NO_REQUEST, req, buf⟩ := by
  rw [processRead, if_neg (by omega)]

theorem processRead_done {req : HttpRequest} {buf : FixedBuffer} {out : Called}
    (h : 0 < buf.used) (hr : round req buf = .done out) : processRead req buf = out := by
  rw [processRead, if_pos h]
  split
  · rename_i o ho
    rw [hr] at ho
    exact (Round.done.inj ho).symm
  · rename_i ho
    rw [hr] at ho
    cases ho

theorem processRead_again {req req' : HttpRequest} {buf buf' : FixedBuffer}
    (h : 0 < buf.used) (hr : round req buf = .again req' buf') :
    processRead req buf = processRead req' buf' := by
  rw [processRead, if_pos h]
  split
  · rename_i ho
    rw [hr] at ho
    cases ho
  · rename_i ho
    rw [hr] at ho
    obtain ⟨rfl, rfl⟩ := Round.again.inj ho
    rfl

end HttpRequest
end Knpnl.Http
