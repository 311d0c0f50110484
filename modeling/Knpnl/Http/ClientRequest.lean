import Knpnl.Http.KeepAlive
import Knpnl.Http.RequestLine
import Knpnl.Http.Serialising

/-!
# What a client writes

A request is a request line, header lines, an empty line and a body. Names and methods may be in any
case and blanks may be as many as one likes, a header that the parser does not know says nothing to
it, and of two headers with one name the later one counts. What the client wrote is what the user of
the server gets, however it is cut.
-/
namespace Knpnl.Http

open Lib.CString
open Net (Socket)

/-- The bytes of one line. -/
def IsText (s : Bytes) : Prop := Clean s ∧ 0 ∉ s

instance (s : Bytes) : Decidable (IsText s) := inferInstanceAs (Decidable (_ ∧ _))

/-- Names of the headers that the parser knows, with their colons. -/
def knownNames : List Bytes := [ascii "Connection:", ascii "Content-length:", ascii "Host:"]

/-- The value of a header, after the blanks. -/
def IsValue (v : Bytes) : Prop := ∀ c, v.head? = some c → c ∉ blanks

/-- A number that fits a `long`. -/
def IsLength (digits : Bytes) : Prop :=
  digits ≠ [] ∧ (∀ c ∈ digits, isdigit c = true) ∧ digitsValue digits < 2 ^ 63

/-- `line` is a header line, which sets the fields of a head as `effect` does. -/
inductive HeaderLine (line : Bytes) : (Head → Head) → Prop where
  | connection (name gap value : Bytes) (line_eq : line = name ++ gap ++ value)
      (named : AnyCase name (ascii "Connection:")) (blank : ∀ c ∈ gap, c ∈ blanks) (isValue : IsValue value) :
      HeaderLine line fun h => { h with isAlive := decide (AnyCase value (ascii "keep-isAlive")) }
  | contentLength (name gap digits : Bytes) (line_eq : line = name ++ gap ++ digits)
      (named : AnyCase name (ascii "Content-length:")) (blank : ∀ c ∈ gap, c ∈ blanks)
      (isLength : IsLength digits) :
      HeaderLine line fun h => { h with contentLength := digitsValue digits }
  | host (name gap value : Bytes) (line_eq : line = name ++ gap ++ value)
      (named : AnyCase name (ascii "Host:")) (blank : ∀ c ∈ gap, c ∈ blanks) (isValue : IsValue value) :
      HeaderLine line fun h => { h with host := value }
  | other (nonempty : line ≠ [])
      (unknown : ∀ word ∈ knownNames, ¬ AnyCase (line.take word.length) word) : HeaderLine line id

section
variable {line name gap value word word' : Bytes}

theorem nulFree_known (h : word ∈ knownNames) : 0 ∉ word := by
  have hall : ∀ word ∈ knownNames, 0 ∉ word := by decide
  exact hall word h

/-- A header is recognised by its name. -/
theorem strncasecmp_known (hline : 0 ∉ line) (word : Bytes) (hword : word ∈ knownNames) :
    strncasecmp line word word.length = 0 ↔ AnyCase (line.take word.length) word :=
  strncasecmp_eq_zero hline (nulFree_known hword) le_rfl

theorem take_named (named : AnyCase name word) : (name ++ gap ++ value).take word.length = name := by
  rw [← named.length, List.append_assoc, List.take_left]

/-- A line with one name has no other name. -/
theorem not_named (named : AnyCase name word) {n : Nat} (hn : n ≤ word.length) (hn' : n ≤ word'.length)
    (hne : (word.map tolower).take n ≠ (word'.map tolower).take n) :
    ¬ AnyCase ((name ++ gap ++ value).take word'.length) word' := by
  intro h
  refine hne ?_
  have hlen := named.length
  rw [← named, ← h, ← List.map_take, ← List.map_take, List.take_take, min_eq_left hn', List.append_assoc,
    List.take_append_of_le_length (by omega)]

theorem valueOf_named (named : AnyCase name word) (blank : ∀ c ∈ gap, c ∈ blanks) (isValue : IsValue value) :
    valueOf (name ++ gap ++ value) word.length = value := by
  have hvalue : value.dropWhile (· ∈ blanks) = value := by
    cases value with
    | nil => rfl
    | cons c v => rw [List.dropWhile_cons_of_neg (by simpa using isValue c rfl)]
  rw [valueOf, ← named.length, List.append_assoc, List.drop_left,
    List.dropWhile_append_of_pos (by simpa using blank), hvalue]

theorem isValue_of_isLength {digits : Bytes} (h : IsLength digits) : IsValue digits := by
  have hdigit : ∀ c ∈ blanks, isdigit c = false := by decide
  intro c hc hblank
  have hmem : c ∈ digits := List.mem_of_mem_head? hc
  exact Bool.false_ne_true ((hdigit c hblank).symm.trans (h.2.1 c hmem))

theorem atol_digits {digits : Bytes} (h : IsLength digits) : atol digits = digitsValue digits := by
  obtain ⟨hne, hdigits, hlt⟩ := h
  obtain ⟨c, cs, rfl⟩ := List.exists_cons_of_ne_nil hne
  have hc := hdigits c List.mem_cons_self
  have hbounds : 48 ≤ c ∧ c ≤ 57 := of_decide_eq_true hc
  have hlo := UInt8.le_iff_toNat_le.mp hbounds.1
  have hhi := UInt8.le_iff_toNat_le.mp hbounds.2
  have hspace : isspace c = false := by
    refine decide_eq_false fun hor => ?_
    rcases hor with rfl | ⟨_, hle⟩
    · exact absurd hlo (by decide)
    · have hle := UInt8.le_iff_toNat_le.mp hle
      simp only [UInt8.reduceToNat] at hlo hle
      omega
  have htake : (c :: cs).takeWhile isdigit = c :: cs := List.takeWhile_eq_self_iff.mpr hdigits
  have hminus : c ≠ 45 := fun heq => absurd (heq ▸ hlo) (by decide)
  have hplus : c ≠ 43 := fun heq => absurd (heq ▸ hlo) (by decide)
  unfold atol
  rw [List.dropWhile_cons_of_neg (by simp [hspace])]
  split
  · rename_i heq
    exact absurd (List.cons.inj heq).1 hminus
  · rename_i heq
    exact absurd (List.cons.inj heq).1 hplus
  · rw [htake]
    omega

/-- The rules of the reference do to a head what the line says. -/
theorem headerRules_line {effect : Head → Head} (hline : 0 ∉ line) (h : HeaderLine line effect) (f : Head) :
    headerRules f line = effect f := by
  have hconnection := strncasecmp_known hline (ascii "Connection:") (by simp [knownNames])
  have hlength := strncasecmp_known hline (ascii "Content-length:") (by simp [knownNames])
  have hhost := strncasecmp_known hline (ascii "Host:") (by simp [knownNames])
  have hnul : ∀ {name gap value}, line = name ++ gap ++ value → 0 ∉ value := fun heq hmem =>
    hline (heq ▸ List.mem_append_right _ hmem)
  change (strncasecmp line _ 11 = 0 ↔ _) at hconnection
  change (strncasecmp line _ 15 = 0 ↔ _) at hlength
  change (strncasecmp line _ 5 = 0 ↔ _) at hhost
  unfold headerRules
  rw [if_congr hconnection rfl rfl, if_congr hlength rfl rfl, if_congr hhost rfl rfl]
  cases h with
  | connection name gap value line_eq named blank isValue =>
    have hvalue : valueOf line 11 = value := line_eq ▸ valueOf_named named blank isValue
    have halive := strcasecmp_eq_zero (hnul line_eq) (b := ascii "keep-isAlive") (by decide)
    rw [if_pos (by rw [line_eq, take_named named]; exact named), hvalue]
    simp only [halive]
  | contentLength name gap digits line_eq named blank isLength =>
    have hvalue : valueOf line 15 = digits := line_eq ▸ valueOf_named named blank (isValue_of_isLength isLength)
    rw [if_neg (line_eq ▸ not_named (n := 5) named (by decide) (by decide) (by decide)),
      if_pos (by rw [line_eq, take_named named]; exact named), hvalue, atol_digits isLength]
  | host name gap value line_eq named blank isValue =>
    have hvalue : valueOf line 5 = value := line_eq ▸ valueOf_named named blank isValue
    rw [if_neg (line_eq ▸ not_named (n := 5) named (by decide) (by decide) (by decide)),
      if_neg (line_eq ▸ not_named (n := 5) named (by decide) (by decide) (by decide)),
      if_pos (by rw [line_eq, take_named named]; exact named), hvalue]
  | other nonempty unknown =>
    rw [if_neg (unknown _ (by simp [knownNames])), if_neg (unknown _ (by simp [knownNames])),
      if_neg (unknown _ (by simp [knownNames]))]
    rfl

theorem HeaderLine.ne_nil {effect : Head → Head} (h : HeaderLine line effect) : line ≠ [] := by
  have hname : ∀ {name gap value word : Bytes}, AnyCase name word → word ≠ [] → name ++ gap ++ value ≠ [] := by
    intro name gap value word named hword hnil
    have hlen := named.length
    rw [(List.append_eq_nil_iff.mp (List.append_eq_nil_iff.mp hnil).1).1] at hlen
    exact hword (List.eq_nil_of_length_eq_zero hlen.symm)
  cases h with
  | connection name gap value line_eq named => exact line_eq ▸ hname named (by decide)
  | contentLength name gap digits line_eq named => exact line_eq ▸ hname named (by decide)
  | host name gap value line_eq named => exact line_eq ▸ hname named (by decide)
  | other nonempty => exact nonempty

end

/-- A header line, and what it says. -/
structure ClientField where
  line : Bytes
  effect : Head → Head
  isText : IsText line
  isLine : HeaderLine line effect

def ClientField.apply (f : Head) (field : ClientField) : Head := field.effect f

/-- A request with the body that it announces, which has no line end. -/
structure ClientRequest where
  line : Bytes
  method : METHOD
  target : Bytes
  version : Bytes
  fields : List ClientField
  body : Bytes
  isText : IsText line
  isLine : RequestLine line method target version
  bodyClean : Clean body
  announced :
    (fields.foldl ClientField.apply { method := some method, url := target, version }).contentLength = body.length

namespace ClientRequest

/-- What a reader of the request is to know. -/
def head (q : ClientRequest) : Head :=
  q.fields.foldl ClientField.apply { method := some q.method, url := q.target, version := q.version }

/-- The header lines and the empty line. -/
def fieldBytes (fields : List ClientField) : Bytes := (fields.map fun field => field.line ++ crlf).flatten ++ crlf

def request (q : ClientRequest) : Request := ⟨q.line ++ crlf ++ fieldBytes q.fields, q.body⟩

def bytes (q : ClientRequest) : Bytes := q.request.bytes

theorem fieldBytes_cons (field : ClientField) (fields : List ClientField) :
    fieldBytes (field :: fields) = field.line ++ CR :: LF :: fieldBytes fields := by
  simp [fieldBytes, crlf]

/-- The header lines say in turn what they are to say. -/
theorem headers_fields (fields : List ClientField) (f : Head) (n : Nat) :
    headers cstr f n (cutLines [] (fieldBytes fields)).1 (cutLines [] (fieldBytes fields)).2 =
      if (fields.foldl ClientField.apply f).contentLength ≠ 0 then
        .body (fields.foldl ClientField.apply f) (n + (fieldBytes fields).length)
      else .complete (fields.foldl ClientField.apply f) (n + (fieldBytes fields).length) := by
  induction fields generalizing f n with
  | nil => rfl
  | cons field fields ih =>
    have hnul := field.isText.2
    have hview : cstr field.line = field.line := cstr_of_nulFree hnul
    rw [fieldBytes_cons, cutLines_ended field.isText.1, headers, hview, if_neg field.isLine.ne_nil,
      headerRules_line hnul field.isLine, ih]
    have hlen : n + field.line.length + 2 + (fieldBytes fields).length =
        n + (field.line ++ CR :: LF :: fieldBytes fields).length := by
      simp only [List.length_append, List.length_cons]
      omega
    rw [hlen]
    rfl

theorem referenceHead_head (q : ClientRequest) : referenceHead cstr q.request.head =
    if q.head.contentLength ≠ 0 then .body q.head q.request.head.length
    else .complete q.head q.request.head.length := by
  have hbytes : q.request.head = q.line ++ CR :: LF :: fieldBytes q.fields := by simp [request, crlf]
  have hview : cstr q.line = q.line := cstr_of_nulFree q.isText.2
  have hlen : 0 + q.line.length + 2 + (fieldBytes q.fields).length =
      (q.line ++ CR :: LF :: fieldBytes q.fields).length := by
    simp only [List.length_append, List.length_cons]
    omega
  rw [hbytes, referenceHead, cutLines_ended q.isText.1, requestLine, hview,
    (requestRules_iff q.isText.2).mpr q.isLine]
  dsimp only
  rw [headers_fields, hlen]
  rfl

/-- What a client writes is a well-formed request. -/
theorem wellFormed (q : ClientRequest) : q.request.WellFormed q.head := by
  have href := q.referenceHead_head
  have hlen : q.head.contentLength = q.body.length := q.announced
  by_cases hbody : q.body = []
  · rw [if_neg (by rw [hlen, hbody]; simp)] at href
    exact .plain href hbody
  · have hpos : 0 < q.body.length := List.length_pos_of_ne_nil hbody
    rw [if_pos (by rw [hlen]; omega)] at href
    exact .withBody ⟨href, hlen, hpos⟩

/-- The request is handed to the user when its last byte has come, once and as it was written, and
nothing is handed over before. -/
theorem calls_clientRequest (q : ClientRequest) (rbuf wbuf : Bytes) (hbuf : rbuf.length < 2 ^ 31)
    (hfit : q.bytes.length ≤ rbuf.length) (socket : Socket) (garbage : Event.Channel) (alive : Bool)
    (ms : List Message) (hpre : Session.bytesOf ms <+: q.bytes) :
    ((Session.start rbuf wbuf socket garbage alive).run ms).calls =
      if Session.bytesOf ms = q.bytes then [(q.head, q.body)] else [] := by
  have hfresh := Session.fresh_start rbuf wbuf socket garbage alive
  split
  · rename_i hall
    rw [hfresh.calls_single hbuf q.wellFormed hfit ms hall (.inl q.bodyClean)]
    exact congrArg (fun body => [(q.head, body)]) (storedBody_clean q.bodyClean)
  · rename_i hsome
    refine (hfresh.pending_run hbuf q.wellFormed hfit ms hpre ?_).1
    exact lt_of_le_of_ne hpre.length_le fun heq => hsome (hpre.eq_of_length heq)

end ClientRequest

/-- A form with two lengths, of which the second counts, and a header that means nothing here. -/
def form : ClientRequest where
  line := ascii "post /a HTTP/1.1"
  method := .POST
  target := ascii "/a"
  version := ascii "HTTP/1.1"
  fields :=
    [⟨ascii "Content-Length:9", _, by decide, .contentLength (ascii "Content-Length:") [] (ascii "9") (by decide)
        (by decide) (by decide) ⟨by decide, by decide, by decide⟩⟩,
      ⟨ascii "Accept: *", _, by decide, .other (by decide) (by decide)⟩,
      ⟨ascii "content-length: 03", _, by decide, .contentLength (ascii "content-length:") [32] (ascii "03")
        (by decide) (by decide) (by decide) ⟨by decide, by decide, by decide⟩⟩]
  body := ascii "a=1"
  isText := by decide
  isLine := .parts (ascii "post") [32] [32] (by decide) (.inr ⟨rfl, by decide⟩) (by decide) (by decide) rfl
    (by decide) (by decide)
  bodyClean := by decide
  announced := by decide

theorem calls_clientRequest_form :
    ((Session.start (List.replicate 128 0) [] ⟨[], [], []⟩ ⟨0, 0⟩ true).run
        [⟨form.bytes.take 20, idle⟩, ⟨form.bytes.drop 20, idle⟩]).calls =
      if Session.bytesOf [⟨form.bytes.take 20, idle⟩, ⟨form.bytes.drop 20, idle⟩] = form.bytes then
        [(form.head, form.body)]
      else [] :=
  form.calls_clientRequest (List.replicate 128 0) [] (by decide +kernel) (by decide +kernel) ⟨[], [], []⟩
    ⟨0, 0⟩ true
    [⟨form.bytes.take 20, idle⟩, ⟨form.bytes.drop 20, idle⟩] (by simp [Session.bytesOf])

end Knpnl.Http
