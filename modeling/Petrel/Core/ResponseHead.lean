/-
  Petrel.Core.ResponseHead — the head of an HTTP/2 response.

  Three writers fill the header map of a stream: the loop over the handler's
  table, `send_response` with its server header, and `send_response` with the
  length of the body.  The second one looks for an entry of the same name
  first, the third one does not.

  Main results:
    * `handleRequest_replied` — what is sent for a well-formed response table.
    * `http2_head_exact_iff`  — the headers that are sent with one server and
      one content-length.
    * `two_content_lengths`   — a handler that sets its own length.
-/

import Petrel.Core.HandlerFailure

namespace Petrel

open Framework

section Replies

variable {Num : Type} [DecidableEq Num] [LuaNumber Num]

/-! ## §1. A well-formed response. -/

/-- The handler returns a well-formed table: a status, headers that the loop
takes from the headers table, and a content. -/
def HandlerReplies (env : EngineEnv Num) (func : Bytes) (req : Request) (status : Int) (hs : Headers)
    (content : Bytes) : Prop :=
  ∃ L f vs t s ht c, env.getState = .ok L ∧
    L.heap.index L.globals (.string (cStr func)) = .returned f ∧ f.isFunction = true ∧
    (handlerRun env f L req).result = .returned vs ∧ vs.headD .nil = .table t ∧
    (handlerRun env f L req).heap.index t (.string (bytes "status")) = .returned s ∧
    s.isNumber = true ∧ toInt32 s.toInteger = status ∧
    (handlerRun env f L req).heap.index t (.string (bytes "headers")) = .returned (.table ht) ∧
    HeaderWalk ((handlerRun env f L req).heap.pairs ht) .nil hs ∧
    (handlerRun env f L req).heap.index t (.string (bytes "content")) = .returned c ∧
    c.toText = some content

/-- **The response of a well-formed table**: the request as the headers of the
table leave it is answered with the status and the content. -/
theorem handleRequest_replied {env : EngineEnv Num} {func : Bytes} {h : Handling Num}
    (hfresh : h.req.Fresh) {status : Int} {hs : Headers} {content : Bytes}
    (hreplies : HandlerReplies env func h.req status hs content) :
    ∃ fuel h', handleRequest env fuel func h = .returned () h' ∧
      h'.req = (sendResponse (φ := Fault) status content
        { h.req with responseHeaders := h.req.responseHeaders ++ hs }).state := by
  obtain ⟨L, f, vs, t, s, ht, c, hget, hf, hfun, hres, htable, hs', hnum, rfl, hhd, hwalk, hc, htext⟩ :=
    hreplies
  have hcall := callHandler_apply env func (h := { h with L := L }) hfresh
  simp only [hf, hfun, if_true, hres, htable] at hcall
  obtain ⟨L', hret, hstack, hheap⟩ := hcall
  rw [← hheap] at hs' hhd hwalk hc
  have hfresh' : Request.Fresh { h.req with responseHeaders := h.req.responseHeaders ++ hs } :=
    ⟨hfresh.sent, hfresh.promise, hfresh.body⟩
  obtain ⟨fuel, hheaders⟩ := readHeaders_returned (h := { h with L := L' }) hstack hhd hwalk
  obtain ⟨req, hsend, -⟩ := sendResponse_fresh (φ := Fault) hfresh' (toInt32 s.toInteger) content
  have hcontent := readContent_returned (h := { h with
    L := L', req := { h.req with responseHeaders := h.req.responseHeaders ++ hs } }) hstack hc htext
  refine ⟨fuel, ?_⟩
  rw [hsend]
  unfold handleRequest
  rw [hget]
  simp only [Code.bind_apply, Code.modify_apply, Outcome.andThen_returned, hret]
  rw [readResponse_table (h := { h with L := L' }) hstack,
    readStatus_returned (h := { h with L := L' }) hstack hs' hnum]
  simp only [Outcome.andThen_returned, Code.bind_apply, hheaders, hcontent, onRequest_apply, hsend,
    Outcome.mapState_returned, onLua_apply, Code.modify_apply]
  exact ⟨_, rfl, rfl⟩

end Replies

/-! ## §2. The header map. -/

/-- `send_response` adds its server header only where there is none. -/
def Headers.withServer (hs : Headers) : Headers :=
  if hs.exists (bytes "server") then hs else hs ++ [(bytes "server", bytes "petrel")]

/-- The head that is written to a stream. -/
theorem sendResponse_http2 {φ : Type} {req : Request} (hmode : req.mode = .http2) (code : Int)
    (content : Bytes) :
    (sendResponse (φ := φ) code content req).state.sent = req.sent ++
      [⟨code, req.responseHeaders.withServer ++ [(bytes "content-length", decimal content.length)],
        content⟩] := by
  unfold sendResponse Headers.withServer
  by_cases hs : req.responseHeaders.exists (bytes "server") = true
  · simp [hs, hmode, Request.addHeader, Outcome.state]
  · simp [hs, hmode, Request.addHeader, Outcome.state]

/-- The entries of a name. -/
def Headers.named (hs : Headers) (name : Bytes) : Headers := hs.filter (fun p => p.1 = name)

/-- The entries that are neither the server nor the length. -/
def Headers.others (hs : Headers) : Headers :=
  hs.filter (fun p => p.1 ≠ bytes "server" ∧ p.1 ≠ bytes "content-length")

/-- The head of a response says the length of its body once and has one server,
beside the other headers of the handler. -/
structure HeadExact (hs : Headers) (r : SentResponse) : Prop where
  length : r.headers.named (bytes "content-length") =
    [(bytes "content-length", decimal r.body.length)]
  server : (r.headers.named (bytes "server")).length = 1
  others : r.headers.others = hs.others

theorem named_append (hs hs' : Headers) (name : Bytes) :
    Headers.named (hs ++ hs') name = hs.named name ++ hs'.named name := List.filter_append ..

theorem others_append (hs hs' : Headers) : Headers.others (hs ++ hs') = hs.others ++ hs'.others :=
  List.filter_append ..

theorem exists_iff_named (hs : Headers) (name : Bytes) :
    hs.exists name = true ↔ hs.named name ≠ [] := by
  unfold Headers.exists Headers.named
  rw [List.any_eq_true, ne_eq, List.filter_eq_nil_iff]
  simp

/-- With the server header of `send_response` there is one, if the handler has not
set two. -/
theorem length_named_withServer (hs : Headers) :
    (hs.withServer.named (bytes "server")).length = 1 ↔ (hs.named (bytes "server")).length ≤ 1 := by
  unfold Headers.withServer
  by_cases hserver : hs.exists (bytes "server") = true
  · have hpos := List.length_pos_of_ne_nil ((exists_iff_named hs _).mp hserver)
    rw [if_pos hserver]
    omega
  · have hnil : hs.named (bytes "server") = [] := by
      rwa [exists_iff_named, not_not] at hserver
    rw [if_neg hserver, named_append, hnil]
    exact iff_of_true rfl (Nat.zero_le 1)

theorem named_withServer {hs : Headers} {name : Bytes} (hname : name ≠ bytes "server") :
    hs.withServer.named name = hs.named name := by
  have hnew : Headers.named [(bytes "server", bytes "petrel")] name = [] :=
    List.filter_eq_nil_iff.mpr (by simp [hname.symm])
  unfold Headers.withServer
  split
  · rfl
  · rw [named_append, hnew, List.append_nil]

theorem others_withServer (hs : Headers) : hs.withServer.others = hs.others := by
  unfold Headers.withServer
  split
  · rfl
  · rw [others_append]
    exact List.append_nil _

/-- **The head that is written** is exact just if the handler sets no length and
not two servers. -/
theorem headExact_iff (hs : Headers) (code : Int) (content : Bytes) :
    HeadExact hs ⟨code, hs.withServer ++ [(bytes "content-length", decimal content.length)], content⟩ ↔
      hs.named (bytes "content-length") = [] ∧ (hs.named (bytes "server")).length ≤ 1 := by
  have hne : bytes "content-length" ≠ bytes "server" := by decide
  have hown : Headers.named [(bytes "content-length", decimal content.length)]
      (bytes "content-length") = [(bytes "content-length", decimal content.length)] := by
    simp [Headers.named]
  have hother : Headers.named [(bytes "content-length", decimal content.length)]
      (bytes "server") = [] := by
    simp [Headers.named, hne]
  have hlength : Headers.named
      (hs.withServer ++ [(bytes "content-length", decimal content.length)])
        (bytes "content-length") = [(bytes "content-length", decimal content.length)] ↔
      hs.named (bytes "content-length") = [] := by
    rw [named_append, named_withServer hne, hown]
    exact List.append_left_eq_self
  have hserver : (Headers.named
      (hs.withServer ++ [(bytes "content-length", decimal content.length)])
        (bytes "server")).length = 1 ↔ (hs.named (bytes "server")).length ≤ 1 := by
    rw [named_append, hother, List.append_nil]
    exact length_named_withServer hs
  have hothers : Headers.others
      (hs.withServer ++ [(bytes "content-length", decimal content.length)]) = hs.others := by
    rw [others_append, others_withServer]
    exact List.append_nil _
  constructor
  · intro h
    exact ⟨hlength.mp h.length, hserver.mp h.server⟩
  · rintro ⟨hnone, hone⟩
    exact ⟨hlength.mpr hnone, hserver.mpr hone, hothers⟩

/-- **ONE SERVER, ONE CONTENT-LENGTH** in the head of every well-formed response to
a stream, just if the handler leaves the length to the server and sets no second
server. -/
theorem http2_head_exact_iff {Num : Type} [DecidableEq Num] [LuaNumber Num] (env : EngineEnv Num)
    (func : Bytes) (r : Http2Stream) (body : Option Bytes) {status : Int} {hs : Headers}
    {content : Bytes} (hreplies : HandlerReplies env func (.ofHttp2 r body) status hs content) :
    ∃ fuel h' sent,
      handleRequest env fuel func { req := .ofHttp2 r body } = .returned () h' ∧
      h'.req.sent = [sent] ∧ sent.status = status ∧ sent.body = content ∧
      (HeadExact hs sent ↔
        hs.named (bytes "content-length") = [] ∧ (hs.named (bytes "server")).length ≤ 1) := by
  obtain ⟨fuel, h', hret, hreq⟩ := handleRequest_replied (h := { req := .ofHttp2 r body })
    (fresh_ofHttp2 r body) hreplies
  have hmode : ({ Request.ofHttp2 r body with responseHeaders := hs } : Request).mode = .http2 := rfl
  have hsent := sendResponse_http2 (φ := Fault) hmode status content
  refine ⟨fuel, h', _, hret, ?_, rfl, rfl, headExact_iff hs status content⟩
  rw [hreq]
  exact hsent

/-- A stream of a GET request. -/
def plainStream : Http2Stream where
  method := bytes "GET"
  scheme := bytes "https"
  host := []
  rawPath := bytes "/"
  rawQuery := []
  headers := []
  chunks := []
  remoteAddr := []
  remoteIsV4 := true

/-- `{ status = 200, headers = { [name] = "0" }, content = "hello" }` -/
def withHeader (name : Bytes) : HandlerRun Int where
  heap := { pairs := fun t =>
    if t = 7 then
      [(.string (bytes "status"), .number 200), (.string (bytes "headers"), .table 8),
        (.string (bytes "content"), .string (bytes "hello"))]
    else if t = 8 then [(.string name, .string (bytes "0"))]
    else [] }
  result := .returned [.table 7]

theorem withHeader_replies (name : Bytes) :
    HandlerReplies (oneHandler (withHeader name)) (bytes "handler") (.ofHttp2 plainStream none) 200
      [(cStr name, bytes "0")] (bytes "hello") := by
  have hend : LuaPairs.next [((.string name : LuaValue Int), (.string (bytes "0") : LuaValue Int))]
      (.string name) = some none := by
    simp [LuaPairs.next, LuaPairs.after]
  have hwalk : HeaderWalk [((.string name : LuaValue Int), (.string (bytes "0") : LuaValue Int))] .nil
      (headersOf (.string name : LuaValue Int) (.string (bytes "0")) ++ []) := .next rfl (.done hend)
  exact ⟨_, .function 0, _, 7, .number 200, 8, .string (bytes "hello"), rfl, rfl, rfl, rfl, rfl, rfl,
    rfl, rfl, rfl, hwalk, rfl, rfl⟩

/-- A header that is neither of the two. -/
theorem http2_head_exact_iff_plain :
    ∃ fuel h' sent,
      handleRequest (oneHandler (withHeader (bytes "x"))) fuel (bytes "handler")
        { req := .ofHttp2 plainStream none } = .returned () h' ∧
      h'.req.sent = [sent] ∧ HeadExact [(bytes "x", bytes "0")] sent := by
  obtain ⟨fuel, h', sent, hret, hsent, -, -, hexact⟩ :=
    http2_head_exact_iff (oneHandler (withHeader (bytes "x"))) (bytes "handler") plainStream none
      (withHeader_replies (bytes "x"))
  exact ⟨fuel, h', sent, hret, hsent, hexact.mpr ⟨by decide, by decide⟩⟩

/-- **TWO LENGTHS**: the one of the handler, `0`, stands before the one of the
body, `5`. -/
theorem two_content_lengths :
    ∃ fuel h' sent,
      handleRequest (oneHandler (withHeader (bytes "content-length"))) fuel (bytes "handler")
        { req := .ofHttp2 plainStream none } = .returned () h' ∧
      h'.req.sent = [sent] ∧
      sent.headers.named (bytes "content-length") =
        [(bytes "content-length", bytes "0"), (bytes "content-length", bytes "5")] ∧
      ¬ HeadExact [(bytes "content-length", bytes "0")] sent := by
  obtain ⟨fuel, h', hret, hreq⟩ := handleRequest_replied (h := { req := .ofHttp2 plainStream none })
    (fresh_ofHttp2 _ _) (withHeader_replies (bytes "content-length"))
  have hmode : ({ Request.ofHttp2 plainStream none with
      responseHeaders := [(bytes "content-length", bytes "0")] } : Request).mode = .http2 := rfl
  have hsent := sendResponse_http2 (φ := Fault) hmode 200 (bytes "hello")
  refine ⟨fuel, h', _, hret, hreq ▸ hsent, by decide, ?_⟩
  rw [headExact_iff]
  exact fun h => nomatch h.1

end Petrel
