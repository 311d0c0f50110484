import Knpnl.Http.Reference
import Knpnl.Http.Response

/-!
# What a response is on the wire

A serialised response is its status line, the fields, an empty line and the body, and it can be
read back. `appendToBuffer` formats every line in an array of 128 bytes, which cuts a longer one,
and hands the pieces one by one to a buffer that takes or refuses each of them on its own.
-/
namespace Knpnl.Http

open Lib Lib.CString
open Base (FixedBuffer signed)

/-- The lines of `s` up to the first empty one, and what follows. `cur` is what has been read of
the first line. -/
def headLines (cur : Bytes) : Bytes → Option (List Bytes × Bytes)
  | [] | [_] => none
  | c :: d :: rest =>
      if c = CR ∧ d = LF then
        if cur = [] then some ([], rest) else (headLines [] rest).map fun p => (cur :: p.1, p.2)
      else headLines (cur ++ [c]) (d :: rest)

/-- A response with its fields in the order of their lines. -/
structure Parsed where
  status : Bytes
  fields : List (Bytes × Bytes)
  body : Bytes
  deriving DecidableEq

/-- A field is cut at the first colon of its line. -/
def parseResponse (s : Bytes) : Option Parsed := do
  let (lines, body) ← headLines [] s
  match lines with
  | [] => none
  | status :: lines => do
    let fields ← lines.mapM (cut (ascii ":"))
    some ⟨status, fields, body⟩

def crlf : Bytes := [CR, LF]

/-- The line of a field, complete. -/
def fieldLine (field : Bytes × Bytes) : Bytes := field.1 ++ ascii ":" ++ field.2

def Parsed.bytes (p : Parsed) : Bytes :=
  p.status ++ crlf ++ (p.fields.map fun field => fieldLine field ++ crlf).flatten ++ crlf ++ p.body

/-- Lines that can be told apart: the name of a field has no colon. -/
structure Parsed.Plain (p : Parsed) : Prop where
  nonempty : p.status ≠ []
  status : Clean p.status
  field : ∀ field ∈ p.fields, Clean field.1 ∧ Clean field.2 ∧ 58 ∉ field.1

theorem headLines_clean {l cur : Bytes} (hl : Clean l) (rest : Bytes) :
    headLines cur (l ++ CR :: LF :: rest) = headLines (cur ++ l) (CR :: LF :: rest) := by
  induction l generalizing cur with
  | nil => simp
  | cons c l ih =>
    obtain ⟨⟨hcr, _⟩, hl⟩ := clean_cons.mp hl
    obtain ⟨d, tail, htail⟩ := List.exists_cons_of_ne_nil (l := l ++ CR :: LF :: rest) (by simp)
    rw [List.cons_append, htail, headLines, if_neg (fun h => hcr h.1), ← htail, ih hl]
    simp

theorem headLines_line {l : Bytes} (hl : Clean l) (hne : l ≠ []) (rest : Bytes) :
    headLines [] (l ++ crlf ++ rest) = (headLines [] rest).map fun p => (l :: p.1, p.2) := by
  have hsplit : l ++ crlf ++ rest = l ++ CR :: LF :: rest := by simp [crlf]
  rw [hsplit, headLines_clean hl, List.nil_append, headLines, if_pos ⟨rfl, rfl⟩, if_neg hne]

theorem headLines_end (body : Bytes) : headLines [] (crlf ++ body) = some ([], body) := rfl

theorem headLines_lines {lines : List Bytes} (h : ∀ l ∈ lines, Clean l ∧ l ≠ []) (body : Bytes) :
    headLines [] ((lines.map (· ++ crlf)).flatten ++ crlf ++ body) = some (lines, body) := by
  induction lines with
  | nil => exact headLines_end body
  | cons l lines ih =>
    obtain ⟨hl, hne⟩ := h l List.mem_cons_self
    have hrest := ih fun m hm => h m (List.mem_cons_of_mem l hm)
    have hsplit : ((l :: lines).map (· ++ crlf)).flatten ++ crlf ++ body =
        l ++ crlf ++ ((lines.map (· ++ crlf)).flatten ++ crlf ++ body) := by simp
    rw [hsplit, headLines_line hl hne, hrest]
    rfl

theorem cut_fieldLine {field : Bytes × Bytes} (h : 58 ∉ field.1) :
    cut (ascii ":") (fieldLine field) = some field := by
  have hcolon : ∀ c ∈ field.1, c ∉ ascii ":" := by
    intro c hc hmem
    obtain rfl : c = 58 := by simpa [ascii] using hmem
    exact h hc
  have hsplit : fieldLine field = field.1 ++ 58 :: field.2 := by simp [fieldLine, ascii]
  rw [hsplit]
  exact cut_append hcolon (by decide)

/-- A serialised response is read back as it was. -/
theorem parseResponse_bytes {p : Parsed} (h : p.Plain) : parseResponse p.bytes = some p := by
  have hlines : ∀ l ∈ p.status :: p.fields.map fieldLine, Clean l ∧ l ≠ [] := by
    intro l hl
    rcases List.mem_cons.mp hl with rfl | hl
    · exact ⟨h.status, h.nonempty⟩
    · obtain ⟨field, hfield, rfl⟩ := List.mem_map.mp hl
      obtain ⟨hkey, hval, _⟩ := h.field field hfield
      exact ⟨by simp [fieldLine, hkey, hval, ascii, CR, LF], by simp [fieldLine, ascii]⟩
  have hbytes : p.bytes =
      ((p.status :: p.fields.map fieldLine).map (· ++ crlf)).flatten ++ crlf ++ p.body := by
    simp [Parsed.bytes, Function.comp_def]
  have hfields : (p.fields.map fieldLine).mapM (cut (ascii ":")) = some p.fields := by
    have hcut := h.field
    generalize p.fields = fields at hcut
    induction fields with
    | nil => rfl
    | cons field fields ih =>
      rw [List.map_cons, List.mapM_cons, cut_fieldLine (hcut field List.mem_cons_self).2.2,
        ih fun f hf => hcut f (List.mem_cons_of_mem field hf)]
      rfl
  unfold parseResponse
  rw [hbytes, headLines_lines hlines]
  simp [hfields]

/-- The text of `%d`: a sign and digits. -/
theorem decimal_eq (z : Int) :
    decimal z = (if 0 ≤ z then [] else ascii "-") ++ ascii z.natAbs.repr := by
  unfold decimal
  rw [Int.toString_eq_repr, Int.repr_eq_if]
  by_cases hz : 0 ≤ z
  · have habs : z.toNat = z.natAbs := by omega
    rw [if_pos hz, if_pos hz, habs, List.nil_append]
  · have habs : (-z).toNat = z.natAbs := by omega
    rw [if_neg hz, if_neg hz, habs]
    simp [ascii]

theorem clean_digits (n : Nat) : Clean (ascii n.repr) := by
  intro c hc
  obtain ⟨d, hd, rfl⟩ := List.mem_map.mp hc
  rw [Nat.toList_repr] at hd
  have hdigit := Nat.isDigit_of_mem_toDigits (by decide) (by decide) hd
  simp only [Char.isDigit, ge_iff_le, Bool.and_eq_true, decide_eq_true_eq, UInt32.le_iff_toNat_le] at hdigit
  have hlo : 48 ≤ d.toNat := hdigit.1
  have hhi : d.toNat ≤ 57 := hdigit.2
  have hval : (UInt8.ofNat d.toNat).toNat = d.toNat := UInt8.toNat_ofNat_of_lt (by rw [UInt8.size]; omega)
  constructor
  all_goals
    intro heq
    rw [heq] at hval
    simp [CR, LF] at hval
    omega

theorem clean_decimal (z : Int) : Clean (decimal z) := by
  rw [decimal_eq, clean_append]
  refine ⟨?_, clean_digits _⟩
  split
  · exact clean_nil
  · simp [ascii, CR, LF]

/-- The text of an `int`. -/
theorem length_decimal_le {z : Int} (hlo : -2 ^ 31 ≤ z) (hhi : z < 2 ^ 31) : (decimal z).length ≤ 11 := by
  have hdigits : (ascii z.natAbs.repr).length ≤ 10 := by
    rw [ascii, List.length_map, Nat.toList_repr]
    exact (Nat.length_toDigits_le_iff (by decide) (by decide)).mpr (by omega)
  rw [decimal_eq, List.length_append]
  split
  · simp only [List.length_nil]
    omega
  · have hsign : (ascii "-").length = 1 := rfl
    omega

namespace HttpResponse

variable {r : HttpResponse} {b : FixedBuffer}

def statusLine (r : HttpResponse) : Bytes :=
  ascii "HTTP/1.1 " ++ decimal r.mStatusCode.value ++ ascii " " ++ r.mStatusCode.kStatusMessage

/-- The response as it is meant. -/
def meant (r : HttpResponse) : Parsed where
  status := r.statusLine
  fields :=
    (ascii "Connection", if r.isAlive then ascii "keep-isAlive" else ascii "closed") ::
      (ascii "Content-Length", decimal r.ContentLength) :: r.Headers.entries
  body := r.Body

/-- The line of a header goes through `snprintf` as it is: it has no NUL, and with its terminator
it fits in the array of 128 bytes. -/
def LineWhole (header : Bytes × Bytes) : Prop :=
  0 ∉ header.1 ∧ 0 ∉ header.2 ∧ header.1.length + header.2.length + 3 ≤ 127

instance (header : Bytes × Bytes) : Decidable (LineWhole header) := inferInstanceAs (Decidable (_ ∧ _))

/-- The line of a header as `snprintf` leaves it. -/
def written (header : Bytes × Bytes) : Bytes :=
  scratch (cstr header.1 ++ ascii ":" ++ cstr header.2 ++ ascii "\r\n")

theorem written_whole {header : Bytes × Bytes} (h : LineWhole header) :
    written header = fieldLine header ++ crlf := by
  obtain ⟨hkey, hval, hlen⟩ := h
  have hshort : (header.1 ++ ascii ":" ++ header.2 ++ ascii "\r\n").length ≤ 127 := by
    simp [ascii]
    omega
  rw [written, cstr_of_nulFree hkey, cstr_of_nulFree hval, scratch, List.take_of_length_le hshort]
  rfl

theorem length_cstr_eq_iff (s : Bytes) : (cstr s).length = s.length ↔ 0 ∉ s := by
  constructor
  · intro hlen h0
    obtain ⟨t, ht⟩ := exists_eq_cstr_append h0
    have := congrArg List.length ht
    simp at this
    omega
  · exact fun h0 => congrArg List.length (cstr_of_nulFree h0)

/-- No line comes out longer, and one that comes out as long is whole. -/
theorem length_written (header : Bytes × Bytes) :
    (written header).length ≤ (fieldLine header ++ crlf).length ∧
      ((written header).length = (fieldLine header ++ crlf).length → LineWhole header) := by
  have hkey := length_cstr_eq_iff header.1
  have hval := length_cstr_eq_iff header.2
  have hk : (cstr header.1).length ≤ header.1.length := (List.takeWhile_sublist _).length_le
  have hv : (cstr header.2).length ≤ header.2.length := (List.takeWhile_sublist _).length_le
  have hlen : (written header).length = min 127 ((cstr header.1).length + 1 + (cstr header.2).length + 2) := by
    simp only [written, scratch, List.length_take, List.length_append]
    rfl
  have hfull : (fieldLine header ++ crlf).length = header.1.length + 1 + header.2.length + 2 := by
    simp only [fieldLine, List.length_append]
    rfl
  rw [hlen, hfull]
  refine ⟨by omega, fun heq => ⟨hkey.mp (by omega), hval.mp (by omega), by omega⟩⟩

theorem statusLine_short (r : HttpResponse) : (r.statusLine ++ crlf).length ≤ 127 := by
  unfold statusLine
  cases r.mStatusCode <;> decide

/-- The pieces around the headers. -/
theorem pieces_eq (hlo : -2 ^ 31 ≤ r.ContentLength) (hhi : r.ContentLength < 2 ^ 31) : r.pieces =
    [r.statusLine ++ crlf,
        fieldLine (ascii "Connection", if r.isAlive then ascii "keep-isAlive" else ascii "closed") ++ crlf,
        fieldLine (ascii "Content-Length", decimal r.ContentLength) ++ crlf] ++
      r.Headers.entries.map written ++ [crlf] ++ if r.Body ≠ [] then [r.Body] else [] := by
  have hstatus : scratch (r.statusLine ++ crlf) = r.statusLine ++ crlf :=
    List.take_of_length_le (statusLine_short r)
  have hshort : (ascii "Content-Length:" ++ decimal r.ContentLength ++ ascii "\r\n").length ≤ 127 := by
    have hdecimal := length_decimal_le hlo hhi
    simp only [List.length_append]
    have h1 : (ascii "Content-Length:").length = 15 := rfl
    have h2 : (ascii "\r\n").length = 2 := rfl
    omega
  have hlength : scratch (ascii "Content-Length:" ++ decimal r.ContentLength ++ ascii "\r\n") =
      fieldLine (ascii "Content-Length", decimal r.ContentLength) ++ crlf := List.take_of_length_le hshort
  have hconnection :
      (if r.isAlive then ascii "Connection:keep-isAlive\r\n" else ascii "Connection:closed\r\n") =
      fieldLine (ascii "Connection", if r.isAlive then ascii "keep-isAlive" else ascii "closed") ++ crlf := by
    cases r.isAlive <;> rfl
  unfold pieces
  rw [hlength, hconnection]
  exact congrArg₂ List.cons hstatus rfl

theorem pieces_whole (hlo : -2 ^ 31 ≤ r.ContentLength) (hhi : r.ContentLength < 2 ^ 31)
    (hwhole : ∀ header ∈ r.Headers.entries, LineWhole header) : r.pieces.flatten = r.meant.bytes := by
  have hwritten : r.Headers.entries.map written =
      r.Headers.entries.map fun header => fieldLine header ++ crlf :=
    List.map_congr_left fun header hmem => written_whole (hwhole header hmem)
  have hbody : (if r.Body ≠ [] then [r.Body] else []).flatten = r.Body := by
    by_cases hnil : r.Body = [] <;> simp [hnil]
  rw [pieces_eq hlo hhi, hwritten]
  simp only [List.flatten_append, hbody, Parsed.bytes, meant, List.flatten_cons, List.flatten_nil,
    List.map_cons, List.append_nil, List.append_assoc]

/-- Headers whose lines come out with their full length in all come out whole. -/
theorem length_headers (headers : List (Bytes × Bytes)) :
    (headers.map written).flatten.length ≤ (headers.map fun header => fieldLine header ++ crlf).flatten.length ∧
      ((headers.map written).flatten.length =
          (headers.map fun header => fieldLine header ++ crlf).flatten.length →
        ∀ header ∈ headers, LineWhole header) := by
  induction headers with
  | nil => simp
  | cons header headers ih =>
    obtain ⟨hle, hwhole⟩ := length_written header
    simp only [List.map_cons, List.flatten_cons, List.length_append, List.forall_mem_cons] at hle hwhole ih ⊢
    exact ⟨by omega, fun heq => ⟨hwhole (by omega), ih.2 (by omega)⟩⟩

theorem length_pieces (hlo : -2 ^ 31 ≤ r.ContentLength) (hhi : r.ContentLength < 2 ^ 31) :
    r.pieces.flatten.length ≤ r.meant.bytes.length ∧
      (r.pieces.flatten.length = r.meant.bytes.length → ∀ header ∈ r.Headers.entries, LineWhole header) := by
  obtain ⟨hle, hwhole⟩ := length_headers r.Headers.entries
  have hbody : (if r.Body ≠ [] then [r.Body] else []).flatten = r.Body := by
    by_cases hnil : r.Body = [] <;> simp [hnil]
  rw [pieces_eq hlo hhi]
  simp only [List.flatten_append, hbody, Parsed.bytes, meant, List.flatten_cons, List.flatten_nil,
    List.map_cons, List.append_nil, List.append_assoc, List.length_append] at hle hwhole ⊢
  exact ⟨by omega, fun heq => hwhole (by omega)⟩

/-- Headers that can be read back. -/
def Readable (header : Bytes × Bytes) : Prop :=
  Clean header.1 ∧ Clean header.2 ∧ 0 ∉ header.1 ∧ 0 ∉ header.2 ∧ 58 ∉ header.1

/-- Exactly the response is appended, and its headers and body can be read back. -/
def WritesMeant (r : HttpResponse) (b : FixedBuffer) : Prop :=
  (r.appendToBuffer b).unread = b.unread ++ r.meant.bytes ∧
    ((∀ header ∈ r.Headers.entries, Readable header) →
      parseResponse ((r.appendToBuffer b).unread.drop b.unread.length) = some r.meant)

theorem meant_plain (hread : ∀ header ∈ r.Headers.entries, Readable header) : r.meant.Plain := by
  have hstatus : ∀ code : STATUS_CODE,
      Clean (ascii "HTTP/1.1 " ++ decimal code.value ++ ascii " " ++ code.kStatusMessage) := by
    intro code
    rw [clean_append, clean_append, clean_append]
    exact ⟨⟨⟨by decide, clean_decimal _⟩, by decide⟩, by cases code <;> decide⟩
  refine ⟨?_, hstatus r.mStatusCode, fun field hfield => ?_⟩
  · simp [meant, statusLine, ascii]
  · simp only [meant, List.mem_cons] at hfield
    rcases hfield with rfl | rfl | hfield
    · cases r.isAlive <;> decide
    · have hname : Clean (ascii "Content-Length") ∧ 58 ∉ ascii "Content-Length" := by decide
      exact ⟨hname.1, clean_decimal _, hname.2⟩
    · obtain ⟨hkey, hval, _, _, hcolon⟩ := hread field hfield
      exact ⟨hkey, hval, hcolon⟩

/-- With room for the response, exactly the response is appended and can be read back, if and only
if the line of every header goes through `snprintf` as it is. -/
theorem writesMeant_iff (hok : b.Ok) (hlo : -2 ^ 31 ≤ r.ContentLength) (hhi : r.ContentLength < 2 ^ 31)
    (hroom : r.meant.bytes.length ≤ b.avail) :
    r.WritesMeant b ↔ ∀ header ∈ r.Headers.entries, LineWhole header := by
  obtain ⟨hle, hwhole⟩ := length_pieces hlo hhi
  rw [hok.avail_eq] at hroom
  have happended := r.appendToBuffer_room hok (hle.trans hroom)
  constructor
  · rintro ⟨hmeant, _⟩
    refine hwhole (congrArg List.length ?_)
    exact List.append_cancel_left (happended.symm.trans hmeant)
  · intro hlines
    rw [pieces_whole hlo hhi hlines] at happended
    refine ⟨happended, fun hread => ?_⟩
    rw [happended, List.drop_left]
    exact parseResponse_bytes (meant_plain hread)

/-- Two headers, in key order. -/
def page : HttpResponse :=
  ((({ mStatusCode := .SUCCESS_OK } : HttpResponse).setHeader (ascii "Server") (ascii "knpnl")).setHeader
    (ascii "Date") (ascii "Mon")).setBody (ascii "hello")

theorem writesMeant_iff_page :
    page.WritesMeant (.fresh (List.replicate 1024 0)) :=
  (writesMeant_iff (FixedBuffer.fresh_ok (by decide +kernel)) (by decide) (by decide) (by decide +kernel)).mpr
    (by decide +kernel)

/-- Whatever the response, it is written as it was meant. -/
def AlwaysWritesMeant : Prop :=
  ∀ (r : HttpResponse) (b : FixedBuffer), b.Ok → b.cap = FixedBuffer.kBufferSize → -2 ^ 31 ≤ r.ContentLength →
    r.ContentLength < 2 ^ 31 → r.meant.bytes.length ≤ b.avail → r.WritesMeant b

/-- The line of a header has 128 bytes. -/
theorem alwaysWritesMeant_cookie : ¬ AlwaysWritesMeant := by
  intro hclaim
  have hmeant := hclaim (({} : HttpResponse).setHeader (ascii "Set-Cookie") (List.replicate 115 97))
    (.fresh (List.replicate 1024 0)) (FixedBuffer.fresh_ok (by decide +kernel)) (by decide +kernel) (by decide)
    (by decide) (by decide +kernel)
  exact absurd hmeant.1 (by decide +kernel)

end HttpResponse

/-- What a piece is by the `int` length of its `StringPiece`, unless that is negative. -/
def pieceOf (str : Bytes) : Option Bytes :=
  if signed 32 str.length < 0 then none else some (str.take (signed 32 str.length).toNat)

theorem pieceOf_short {str : Bytes} (h : str.length < 2 ^ 31) : pieceOf str = some str := by
  rw [pieceOf, Base.signed_of_lt h, if_neg (by omega), Int.toNat_natCast, List.take_length]

theorem length_pieceOf {str p : Bytes} (h : pieceOf str = some p) :
    (p.length : Int) = signed 32 str.length ∧ p.length ≤ str.length := by
  have hle := Base.signed_le str.length
  unfold pieceOf at h
  split at h
  · cases h
  · obtain rfl := Option.some.inj h
    rw [List.length_take]
    omega

theorem length_filterMap_pieceOf (strs : List Bytes) :
    (strs.filterMap pieceOf).flatten.length ≤ strs.flatten.length := by
  induction strs with
  | nil => exact le_rfl
  | cons str strs ih =>
    rw [List.flatten_cons, List.length_append]
    cases hp : pieceOf str with
    | none =>
      rw [List.filterMap_cons_none hp]
      omega
    | some p =>
      have hle := (length_pieceOf hp).2
      rw [List.filterMap_cons_some hp, List.flatten_cons, List.length_append]
      omega

/-- The buffer takes of the pieces what a bounded queue takes. -/
theorem represents_foldl_appendPiece {cap : Nat} {b : FixedBuffer} {q : BoundedFifo UInt8 cap}
    (h : Base.Represents b q) (strs : List Bytes) :
    Base.Represents (strs.foldl FixedBuffer.appendPiece b)
      ((strs.filterMap pieceOf).foldl BoundedFifo.push q) := by
  induction strs generalizing b q with
  | nil => exact h
  | cons str strs ih =>
    rw [List.foldl_cons]
    by_cases hneg : signed 32 str.length < 0
    · have hp : pieceOf str = none := by rw [pieceOf, if_pos hneg]
      have hpiece : b.appendPiece str = b := by rw [FixedBuffer.appendPiece, if_pos hneg]
      rw [List.filterMap_cons_none hp, hpiece]
      exact ih h
    · have hp : pieceOf str = some (str.take (signed 32 str.length).toNat) := by rw [pieceOf, if_neg hneg]
      have hpiece : b.appendPiece str = (b.append (str.take (signed 32 str.length).toNat)).buf := by
        rw [FixedBuffer.appendPiece, if_neg hneg]
      rw [List.filterMap_cons_some hp, List.foldl_cons, hpiece]
      exact ih (h.append _)

namespace HttpResponse

variable {r : HttpResponse} {b : FixedBuffer}

theorem appendToBuffer_taken (hok : b.Ok) : (r.appendToBuffer b).unread =
    b.unread ++ (BoundedFifo.taken b.avail (r.pieces.filterMap pieceOf)).flatten := by
  have hbounded : b.unread.length ≤ b.cap := by
    rw [hok.unread_length]
    exact hok.used_le
  have hq : Base.Represents b (⟨b.unread, hbounded⟩ : BoundedFifo UInt8 b.cap) := ⟨hok, rfl, rfl⟩
  have hall := (represents_foldl_appendPiece hq r.pieces).items
  rw [BoundedFifo.items_foldl_push, hq.free_eq, ← hok.avail_eq] at hall
  unfold appendToBuffer
  exact hall

/-- The whole response is appended, or there is not enough room for it and nothing is. -/
def WholeOrNothing (r : HttpResponse) (b : FixedBuffer) : Prop :=
  (r.appendToBuffer b).unread = b.unread ++ r.meant.bytes ∨
    ¬ r.meant.bytes.length ≤ b.avail ∧ (r.appendToBuffer b).unread = b.unread

/-- There is room for the whole response, whose headers have no NUL. -/
def RoomForAll (r : HttpResponse) (b : FixedBuffer) : Prop :=
  r.meant.bytes.length ≤ b.avail ∧ ∀ header ∈ r.Headers.entries, 0 ∉ header.1 ∧ 0 ∉ header.2

/-- There is no room for any piece: none for the empty line, and not one byte for a body that is
one byte long as an `int`. -/
def RoomForNone (r : HttpResponse) (b : FixedBuffer) : Prop :=
  b.avail < 2 ∧ ¬ (b.avail = 1 ∧ signed 32 r.Body.length = 1)

theorem length_scratch {text : Bytes} (h : 2 ≤ text.length) :
    2 ≤ (scratch text).length ∧ (scratch text).length < 2 ^ 31 := by
  rw [scratch, List.length_take]
  omega

/-- The pieces other than the body have at least two bytes. -/
theorem pieces_lengths {p : Bytes} (hp : p ∈ r.pieces) : 2 ≤ p.length ∧ p.length < 2 ^ 31 ∨ p = r.Body := by
  have hend : ∀ text : Bytes, 2 ≤ (text ++ ascii "\r\n").length := fun text => by
    rw [List.length_append]
    exact Nat.le_add_left 2 _
  simp only [pieces, List.mem_append, List.mem_cons, List.not_mem_nil, or_false, List.mem_map] at hp
  rcases hp with (((rfl | rfl | rfl) | ⟨header, _, rfl⟩) | rfl) | hbody
  · exact Or.inl (length_scratch (hend _))
  · left
    cases r.isAlive <;> decide
  · exact Or.inl (length_scratch (hend _))
  · exact Or.inl (length_scratch (hend _))
  · exact Or.inl (by decide)
  · split at hbody
    · exact Or.inr (List.mem_singleton.mp hbody)
    · cases hbody

theorem crlf_mem_pieces (r : HttpResponse) : crlf ∈ r.pieces := by
  simp [pieces, crlf, ascii, CR, LF]

theorem body_mem_pieces (h : r.Body ≠ []) : r.Body ∈ r.pieces := by
  simp [pieces, h]

theorem taken_eq_nil (hnone : r.RoomForNone b) :
    (BoundedFifo.taken b.avail (r.pieces.filterMap pieceOf)).flatten = [] := by
  rw [BoundedFifo.taken_eq_nil_iff]
  intro p hp
  obtain ⟨str, hstr, hpiece⟩ := List.mem_filterMap.mp hp
  obtain ⟨hlen, hle⟩ := length_pieceOf hpiece
  obtain ⟨havail, hbody⟩ := hnone
  rcases pieces_lengths hstr with ⟨htwo, hshort⟩ | rfl
  · rw [pieceOf_short hshort] at hpiece
    obtain rfl := Option.some.inj hpiece
    exact Or.inr (by omega)
  · by_cases hnil : p = []
    · exact Or.inl hnil
    · have := List.length_pos_iff.mpr hnil
      exact Or.inr (by omega)

theorem roomForNone_of_nil (hnil : (BoundedFifo.taken b.avail (r.pieces.filterMap pieceOf)).flatten = []) :
    r.RoomForNone b := by
  rw [BoundedFifo.taken_eq_nil_iff] at hnil
  constructor
  · have hcrlf := hnil crlf (List.mem_filterMap.mpr ⟨crlf, crlf_mem_pieces r, pieceOf_short (by decide)⟩)
    exact hcrlf.resolve_left (by decide)
  · rintro ⟨havail, hbody⟩
    have hne : r.Body ≠ [] := by
      intro h
      rw [h] at hbody
      exact absurd hbody (by decide)
    have hpiece : pieceOf r.Body = some (r.Body.take 1) := by
      rw [pieceOf, hbody]
      rfl
    have hpos := List.length_pos_iff.mpr hne
    have := hnil _ (List.mem_filterMap.mpr ⟨r.Body, body_mem_pieces hne, hpiece⟩)
    rcases this with htake | hlt
    · simp [hne] at htake
    · rw [List.length_take] at hlt
      omega

/-- A response whose header lines have the length to fit `snprintf` is queued whole or not at all
if and only if there is room for all of it, and no NUL in its headers, or room for none of its
pieces. -/
theorem wholeOrNothing_iff (hok : b.Ok) (hlo : -2 ^ 31 ≤ r.ContentLength) (hhi : r.ContentLength < 2 ^ 31)
    (hfits : ∀ header ∈ r.Headers.entries, header.1.length + header.2.length + 3 ≤ 127) :
    r.WholeOrNothing b ↔ r.RoomForAll b ∨ r.RoomForNone b := by
  have hunread := r.appendToBuffer_taken hok
  have hle := length_filterMap_pieceOf r.pieces
  obtain ⟨hpieces, hwhole⟩ := length_pieces hlo hhi
  constructor
  · rintro (hall | ⟨_, hnothing⟩)
    · have htaken := List.append_cancel_left (hunread.symm.trans hall)
      have hsub := BoundedFifo.length_taken_le_all b.avail (r.pieces.filterMap pieceOf)
      have hroom := BoundedFifo.length_taken_le b.avail (r.pieces.filterMap pieceOf)
      rw [htaken] at hsub hroom
      have hlines := hwhole (by omega)
      exact Or.inl ⟨hroom, fun header hmem => ⟨(hlines header hmem).1, (hlines header hmem).2.1⟩⟩
    · have htaken : (BoundedFifo.taken b.avail (r.pieces.filterMap pieceOf)).flatten = [] :=
        List.append_right_eq_self.mp (hunread.symm.trans hnothing)
      exact Or.inr (roomForNone_of_nil htaken)
  · rintro (⟨hroom, hnul⟩ | hnone)
    · have hlines : ∀ header ∈ r.Headers.entries, LineWhole header := fun header hmem =>
        ⟨(hnul header hmem).1, (hnul header hmem).2, hfits header hmem⟩
      have havail := hok.avail_eq
      have happended := r.appendToBuffer_room hok (by omega)
      rw [pieces_whole hlo hhi hlines] at happended
      exact Or.inl happended
    · have hlong : 2 ≤ r.meant.bytes.length := by simp [Parsed.bytes, crlf]; omega
      rw [taken_eq_nil hnone, List.append_nil] at hunread
      exact Or.inr ⟨by have := hnone.1; omega, hunread⟩

theorem wholeOrNothing_iff_page : page.WholeOrNothing (.fresh (List.replicate 1024 0)) :=
  (wholeOrNothing_iff (FixedBuffer.fresh_ok (by decide +kernel)) (by decide) (by decide) (by decide)).mpr
    (Or.inl ⟨by decide +kernel, by decide⟩)

/-- Whatever the response and the state of the buffer, it is queued whole or not at all. -/
def AlwaysWholeOrNothing : Prop :=
  ∀ (r : HttpResponse) (b : FixedBuffer), b.Ok → b.cap = FixedBuffer.kBufferSize → -2 ^ 31 ≤ r.ContentLength →
    r.ContentLength < 2 ^ 31 →
    (∀ header ∈ r.Headers.entries, header.1.length + header.2.length + 3 ≤ 127) → r.WholeOrNothing b

/-- A buffer with room for four bytes. -/
def nearlyFull : FixedBuffer :=
  ((FixedBuffer.fresh (List.replicate 1024 0)).append (List.replicate 1020 97)).buf

/-- Only the empty line is taken. -/
theorem alwaysWholeOrNothing_full : ¬ AlwaysWholeOrNothing := by
  intro hclaim
  have hfresh : (FixedBuffer.fresh (List.replicate 1024 0)).Ok := FixedBuffer.fresh_ok (by decide +kernel)
  have hqueued := hclaim {} nearlyFull (hfresh.append _).ok (by decide +kernel) (by decide) (by decide)
    (by decide)
  unfold WholeOrNothing at hqueued
  exact absurd hqueued (by decide +kernel)

end HttpResponse
end Knpnl.Http
