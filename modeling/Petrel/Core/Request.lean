/-
  Petrel.Core.Request — the request object of both front ends.

  A request wraps either an HTTP/1 session request or an HTTP/2 stream.  The
  two differ in where the method, the path and the headers come from and in
  how a response leaves: HTTP/1 fills the session's response and sets its
  promise, HTTP/2 writes the head and the body to the stream.  `sent` records
  the responses that have left.
-/

import Petrel.Core.Bytes
import Petrel.Framework.Code

namespace Petrel

open Framework

/-- A header map: both front ends use a multimap with exact names. -/
abbrev Headers := List (Bytes × Bytes)

/-- `find(name) != end()`. -/
def Headers.exists (h : Headers) (name : Bytes) : Bool := h.any (fun p => p.1 == name)

inductive Mode where
  | http
  | http2
  deriving DecidableEq

inductive HttpMethod where
  | get
  | post
  | other
  deriving DecidableEq

/-- A response that has left the server code. -/
structure SentResponse where
  status : Int
  headers : Headers
  body : Bytes
  deriving DecidableEq

/-- `request`, with the parts of the session request or of the stream that it
reads and writes. -/
structure Request where
  mode : Mode
  methodString : Bytes
  method : HttpMethod
  path : Bytes
  proto : Bytes
  host : Bytes
  headers : Headers
  content : Bytes
  remoteAddr : Bytes
  remoteIsV4 : Bool
  responseHeaders : Headers := []
  responseBody : Bytes := []       -- HTTP/1: the body of the session's response
  promiseSet : Bool := false       -- HTTP/1: the promise the session waits for
  sent : List SentResponse := []

/-- `request::init`. -/
def HttpMethod.ofString (method : Bytes) : HttpMethod :=
  if method = bytes "GET" then .get else if method = bytes "POST" then .post else .other

/-- A request as the HTTP/1 session has read it. -/
structure HttpRequest where
  method : Bytes
  path : Bytes
  headers : Headers
  body : Bytes
  remoteAddr : Bytes
  remoteIsV4 : Bool

/-- A stream of the HTTP/2 server with the body chunks it delivers: an empty
one only marks the end of the data. -/
structure Http2Stream where
  method : Bytes
  scheme : Bytes
  host : Bytes
  rawPath : Bytes
  rawQuery : Bytes
  headers : Headers
  chunks : List { data : Bytes // data ≠ [] }
  remoteAddr : Bytes
  remoteIsV4 : Bool

/-- The value of the first header of a name, `EMPTY` without one. -/
def Headers.value (h : Headers) (name : Bytes) : Bytes :=
  ((h.find? (fun p => p.1 == name)).map Prod.snd).getD []

/-- The HTTP ctor. -/
def Request.ofHttp (r : HttpRequest) : Request where
  mode := .http
  methodString := r.method
  method := HttpMethod.ofString r.method
  path := r.path
  proto := bytes "http"
  host := r.headers.value (bytes "host")
  headers := r.headers
  content := r.body
  remoteAddr := r.remoteAddr
  remoteIsV4 := r.remoteIsV4

/-- The path of the HTTP2 ctor: the raw path and the raw query. -/
def Http2Stream.path (r : Http2Stream) : Bytes :=
  if r.rawQuery = [] then r.rawPath else r.rawPath ++ bytes "?" ++ r.rawQuery

/-- The content buffer of a POST: the data callback appends every chunk. -/
def Http2Stream.content (r : Http2Stream) : Bytes :=
  r.chunks.foldl (fun buf data => buf ++ data.1) []

/-- The HTTP2 ctor; without a content buffer the content is empty. -/
def Request.ofHttp2 (r : Http2Stream) (content : Option Bytes) : Request where
  mode := .http2
  methodString := r.method
  method := HttpMethod.ofString r.method
  path := r.path
  proto := r.scheme
  host := r.host
  headers := r.headers
  content := content.getD []
  remoteAddr := r.remoteAddr
  remoteIsV4 := r.remoteIsV4

/-- `request::add_header`. -/
def Request.addHeader (name val : Bytes) (req : Request) : Request :=
  { req with responseHeaders := req.responseHeaders ++ [(name, val)] }

/-- The decimal digits of a number, as `std::to_string` gives them. -/
def decimal (n : Nat) : Bytes := (Nat.toDigits 10 n).map byte

/-- `request::send_response`.  A second `set_value` of the promise throws. -/
def sendResponse {φ : Type} (code : Int) (content : Bytes) : Code Bytes φ Request Unit := fun req =>
  let req := if req.responseHeaders.exists (bytes "server") then req
    else req.addHeader (bytes "server") (bytes "petrel")
  match req.mode with
  | .http =>
      let req := { req with responseBody := req.responseBody ++ content }
      if req.promiseSet then .threw (bytes "promise already satisfied") req
      else .returned () { req with
        promiseSet := true
        sent := req.sent ++ [⟨code, req.responseHeaders, req.responseBody⟩] }
  | .http2 =>
      let req := req.addHeader (bytes "content-length") (decimal content.length)
      .returned () { req with
        responseHeaders := []      -- moved into `write_head`
        sent := req.sent ++ [⟨code, req.responseHeaders, content⟩] }

/-- `request::send_error_response`. -/
def sendErrorResponse {φ : Type} (code : Int) : Code Bytes φ Request Unit := sendResponse code []

/-- A request that has not been answered and whose response is still empty. -/
structure Request.Fresh (req : Request) : Prop where
  sent : req.sent = []
  promise : req.promiseSet = false
  body : req.responseBody = []

theorem fresh_ofHttp (r : HttpRequest) : (Request.ofHttp r).Fresh := ⟨rfl, rfl, rfl⟩

theorem fresh_ofHttp2 (r : Http2Stream) (content : Option Bytes) :
    (Request.ofHttp2 r content).Fresh := ⟨rfl, rfl, rfl⟩

theorem Request.Fresh.addHeader {req : Request} (h : req.Fresh) (name val : Bytes) :
    (req.addHeader name val).Fresh := ⟨h.sent, h.promise, h.body⟩

/-- The response is the one and only the request has sent. -/
def Request.AnsweredBy (req : Request) (code : Int) (body : Bytes) : Prop :=
  ∃ headers, req.sent = [⟨code, headers, body⟩]

/-- **An unanswered request takes one response**, with the code and the body
it is given. -/
theorem sendResponse_fresh {φ : Type} {req : Request} (h : req.Fresh) (code : Int) (content : Bytes) :
    ∃ req', sendResponse (φ := φ) code content req = .returned () req' ∧
      req'.AnsweredBy code content := by
  unfold sendResponse
  by_cases hs : req.responseHeaders.exists (bytes "server") = true
  · cases hm : req.mode with
    | http => simp [hs, hm, h.promise, h.sent, h.body, Request.AnsweredBy]
    | http2 => simp [hs, hm, h.sent, Request.AnsweredBy, Request.addHeader]
  · cases hm : req.mode with
    | http => simp [hs, hm, h.promise, h.sent, h.body, Request.AnsweredBy, Request.addHeader]
    | http2 => simp [hs, hm, h.sent, Request.AnsweredBy, Request.addHeader]

end Petrel
