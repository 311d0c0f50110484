import Knpnl.Http.Request
import Knpnl.Http.Response
import Knpnl.Net.TcpConnection

/-!
# `net/http/HttpServer`: requests and responses of one connection

A connection keeps one request and one response in its context. `onMessageCallback`
reports the request it handed to the user's `HttpCallback`, the bytes it added to the
write buffer and the file it attached. A session is a sequence of messages, each a
read of some bytes followed by the callback.
-/
namespace Knpnl.Http

open Lib.CString
open Base (FixedBuffer FileSystem)
open Net (TcpConnection Socket)

structure HttpContext where
  Request : HttpRequest := {}
  Response : HttpResponse := {}

/-- What a user does with a request and the connection's response. -/
abbrev HttpServeFunc := HttpRequest → HttpResponse → HttpResponse

structure Reply where
  ret : Option HTTP_CODE
  called : Option HttpRequest
  added : Bytes
  file : Option FileSystem
  conn : TcpConnection HttpContext

namespace HttpServer

def connectedCb (c : TcpConnection HttpContext) : TcpConnection HttpContext := { c with mContext := {} }

/-- The bytes that were appended to a buffer. -/
def addedBytes (before after : FixedBuffer) : Bytes := after.unread.drop before.unread.length

/-- The response written to the write buffer. -/
def respond (c : TcpConnection HttpContext) (resp : HttpResponse) : TcpConnection HttpContext :=
  { c with
    mWriteBuffer := resp.appendToBuffer c.mWriteBuffer
    mContext := { c.mContext with Response := resp } }

/-- Nothing is done after an exception, which is `none` here. -/
def onMessageCallback (HttpCallback : HttpServeFunc) (c : TcpConnection HttpContext) : Reply :=
  let out := c.mContext.Request.processRead c.mReadBuffer
  let before := c.mWriteBuffer
  let resp := c.mContext.Response
  let c := { c with mReadBuffer := out.buf, mContext := { c.mContext with Request := out.req } }
  match out.ret with
  | none | some .NO_REQUEST => ⟨out.ret, none, [], none, c⟩
  | some .BAD_REQUEST =>
    let c := respond (c.SetAlive false) (resp.setStatusCode .CLIENT_ERROR_BAD_REQUEST)
    ⟨out.ret, none, addedBytes before c.mWriteBuffer, none, c.Send⟩
  | some .GET_REQUEST =>
    let resp := HttpCallback out.req (resp.setStatusCode .SUCCESS_OK)
    let c := respond c resp
    let added := addedBytes before c.mWriteBuffer
    let c := if resp.hasFile then c.setFile resp.mFile else c
    let c := c.SetAlive (resp.isAlive && out.req.isAlive)
    let c := { c with mContext := { c.mContext with Request := out.req.Init } }
    ⟨out.ret, some out.req, added, if resp.hasFile then some resp.mFile else none, c.Send⟩
  | some _ => ⟨out.ret, none, [], none, c.Send⟩

end HttpServer

/-- A read of some bytes, and what the user's callback does if it is called for them. -/
structure Message where
  chunk : Bytes
  handler : HttpServeFunc

/-- The fields that a handler sees. -/
def HttpRequest.fields (req : HttpRequest) : Head × Bytes := (req.toHead, req.body)

/-- A connection, the outcome of its last message, and the requests handed to the user. -/
structure Session where
  conn : TcpConnection HttpContext
  ret : Option HTTP_CODE
  calls : List (Head × Bytes)

namespace Session

/-- A connection of `HttpServer` that has been established. -/
def start (rbuf wbuf : Bytes) (socket : Socket) (garbage : Event.Channel) (alive : Bool) : Session where
  conn := (TcpConnection.new rbuf wbuf {} socket garbage alive).Established HttpServer.connectedCb
  ret := some .NO_REQUEST
  calls := []

/-- The connection with a chunk read into its buffer. -/
def read (s : Session) (chunk : Bytes) : TcpConnection HttpContext :=
  { s.conn with mReadBuffer := (s.conn.mReadBuffer.append chunk).buf }

def reply (s : Session) (m : Message) : Reply :=
  HttpServer.onMessageCallback m.handler (s.read m.chunk)

def step (s : Session) (m : Message) : Session :=
  let r := s.reply m
  { conn := r.conn, ret := r.ret, calls := s.calls ++ r.called.toList.map HttpRequest.fields }

def run (s : Session) (ms : List Message) : Session := ms.foldl step s

end Session
end Knpnl.Http
