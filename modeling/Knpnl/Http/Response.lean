import Knpnl.Base.BufferFifo
import Knpnl.Base.FileSystem
import Knpnl.Lib.SortedMap

/-!
# `net/http/HttpResponse`: the response of a connection

`appendToBuffer` writes the response in pieces, each kept only if the buffer has room
for it. A formatted line goes through a scratch array of 128 bytes.
-/
namespace Knpnl.Http

open Lib Lib.CString
open Base (FixedBuffer FileSystem FILE_STATE System Addr signed)

inductive STATUS_CODE where
  | SUCCESS_OK
  | CLIENT_ERROR_BAD_REQUEST
  | CLIENT_ERROR_FORBIDDEN
  | CLIENT_ERROR_NOT_FOUND
  | SERVER_ERROR_INTERNAL_ERR
  deriving DecidableEq

namespace STATUS_CODE

def value : STATUS_CODE → Nat
  | SUCCESS_OK => 200
  | CLIENT_ERROR_BAD_REQUEST => 400
  | CLIENT_ERROR_FORBIDDEN => 403
  | CLIENT_ERROR_NOT_FOUND => 404
  | SERVER_ERROR_INTERNAL_ERR => 500

def kStatusMessage : STATUS_CODE → Bytes
  | SUCCESS_OK => ascii "OK"
  | CLIENT_ERROR_BAD_REQUEST =>
      ascii "Your request has bad syntax or is inherently impossible to staisfy."
  | CLIENT_ERROR_FORBIDDEN => ascii "You do not have permission to get file form this server."
  | CLIENT_ERROR_NOT_FOUND => ascii "The requested file was not found on this server."
  | SERVER_ERROR_INTERNAL_ERR =>
      ascii "There was an unusual problem serving the request file."

end STATUS_CODE

structure HttpResponse where
  Headers : SortedMap Bytes Bytes := .empty
  isAlive : Bool := true
  ContentLength : Int := 0
  Body : Bytes := []
  mStatusCode : STATUS_CODE := .CLIENT_ERROR_NOT_FOUND
  mFile : FileSystem := {}
  deriving DecidableEq

/-- What `snprintf` leaves in `char buf[128]`. -/
def scratch (text : Bytes) : Bytes := text.take 127

/-- `%d` -/
def decimal (z : Int) : Bytes := ascii (toString z)

namespace HttpResponse

def setStatusCode (r : HttpResponse) (StatusCode : STATUS_CODE) : HttpResponse :=
  { r with mStatusCode := StatusCode }

def setHeader (r : HttpResponse) (key Val : Bytes) : HttpResponse :=
  { r with Headers := r.Headers.set key Val }

def setContentLength (r : HttpResponse) (len : Int) : HttpResponse := { r with ContentLength := len }

def setContentType (r : HttpResponse) (ContentType : Bytes) : HttpResponse :=
  r.setHeader (ascii "Content-Type") ContentType

def setBody (r : HttpResponse) (ResponseBody : Bytes) : HttpResponse := { r with Body := ResponseBody }

def hasFile (r : HttpResponse) : Bool := r.mFile.getAddr ≠ .null

def openFile (r : HttpResponse) (sys : System) (path : Bytes) : HttpResponse × FILE_STATE :=
  let (mFile, ret) := r.mFile.Open sys path
  let r := { r with mFile := mFile }
  let r :=
    match ret with
    | .IS_FILE => r.setContentLength (signed 32 mFile.getLength)
    | .CANNOT_ACCESS => r.setStatusCode .CLIENT_ERROR_FORBIDDEN
    | .NO_FILE => r.setStatusCode .CLIENT_ERROR_NOT_FOUND
    | .IS_DIR => r
  -- whatever the outcome
  (r.setStatusCode .CLIENT_ERROR_BAD_REQUEST, ret)

/-- The strings that `appendToBuffer` appends in turn. -/
def pieces (r : HttpResponse) : List Bytes :=
  [scratch (ascii "HTTP/1.1 " ++ decimal r.mStatusCode.value ++ ascii " " ++
      r.mStatusCode.kStatusMessage ++ ascii "\r\n"),
    if r.isAlive then ascii "Connection:keep-isAlive\r\n" else ascii "Connection:closed\r\n",
    scratch (ascii "Content-Length:" ++ decimal r.ContentLength ++ ascii "\r\n")] ++
  r.Headers.entries.map (fun pair => scratch (cstr pair.1 ++ ascii ":" ++ cstr pair.2 ++ ascii "\r\n")) ++
  [ascii "\r\n"] ++
  if r.Body ≠ [] then [r.Body] else []

def appendToBuffer (r : HttpResponse) (Buffer : FixedBuffer) : FixedBuffer :=
  r.pieces.foldl FixedBuffer.appendPiece Buffer

end HttpResponse

section
variable {b : FixedBuffer}

/-- A piece that fits is appended whole. -/
theorem appendPiece_room (h : b.Ok) {str : Bytes} (hroom : str.length ≤ b.cap - b.used) :
    (b.appendPiece str).Ok ∧ (b.appendPiece str).cap = b.cap ∧
      (b.appendPiece str).unread = b.unread ++ str := by
  have hlen : str.length < 2 ^ 31 := by
    have := h.cap_int
    omega
  have happ := h.append str
  have hpiece : b.appendPiece str = (b.append str).buf := by
    unfold FixedBuffer.appendPiece
    simp only [Base.signed_of_lt hlen, Int.toNat_natCast, List.take_length]
    rw [if_neg (Int.not_lt.mpr (Int.natCast_nonneg _))]
  rw [hpiece]
  exact ⟨happ.ok, happ.cap, (happ.accepts hroom).2⟩

/-- Any piece leaves the pointers in order. -/
theorem appendPiece_ok (h : b.Ok) (str : Bytes) :
    (b.appendPiece str).Ok ∧ (b.appendPiece str).cap = b.cap := by
  unfold FixedBuffer.appendPiece
  dsimp only
  split
  · exact ⟨h, rfl⟩
  · exact ⟨(h.append _).ok, (h.append _).cap⟩

theorem foldl_appendPiece_ok (h : b.Ok) (strs : List Bytes) :
    (strs.foldl FixedBuffer.appendPiece b).Ok ∧ (strs.foldl FixedBuffer.appendPiece b).cap = b.cap := by
  induction strs generalizing b with
  | nil => exact ⟨h, rfl⟩
  | cons str strs ih =>
    obtain ⟨hok, hcap⟩ := appendPiece_ok h str
    obtain ⟨hok', hcap'⟩ := ih hok
    rw [List.foldl_cons]
    exact ⟨hok', hcap'.trans hcap⟩

theorem foldl_appendPiece_room (h : b.Ok) {strs : List Bytes}
    (hroom : strs.flatten.length ≤ b.cap - b.used) :
    (strs.foldl FixedBuffer.appendPiece b).unread = b.unread ++ strs.flatten := by
  induction strs generalizing b with
  | nil => simp
  | cons str strs ih =>
    rw [List.flatten_cons, List.length_append] at hroom
    obtain ⟨hok, hcap, hunread⟩ := @appendPiece_room b h str (by omega)
    have hused := hok.unread_length
    rw [hunread, List.length_append, h.unread_length] at hused
    rw [List.foldl_cons, ih hok (by omega), hunread, List.flatten_cons, List.append_assoc]

end

namespace HttpResponse

variable {b : FixedBuffer}

theorem appendToBuffer_ok (h : b.Ok) (r : HttpResponse) :
    (r.appendToBuffer b).Ok ∧ (r.appendToBuffer b).cap = b.cap := foldl_appendPiece_ok h _

/-- With room for the whole response, exactly the response is appended. -/
theorem appendToBuffer_room (h : b.Ok) {r : HttpResponse}
    (hroom : r.pieces.flatten.length ≤ b.cap - b.used) :
    (r.appendToBuffer b).unread = b.unread ++ r.pieces.flatten := foldl_appendPiece_room h hroom

attribute [irreducible] appendToBuffer

end HttpResponse
end Knpnl.Http
