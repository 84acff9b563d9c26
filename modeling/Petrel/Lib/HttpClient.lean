/-
  Petrel.Lib.HttpClient — the HTTP client of the handlers.

  A client object has one socket and two stream buffers.  The buffers belong
  to the object: `disconnect` and `connect` leave them as they are.  A request
  is appended to `m_req_buf`, which the write consumes as far as it gets; the
  response is read into `m_res_buf`, from which only the head is consumed.
  The body stays there, and the next exchange begins with it.

  The other end of the connection answers each request with one response.  The
  bytes that it has sent or will send and that the client has not read are
  kept with the socket; when they arrive, and where a read or a write fails,
  is up to the environment.

  Main results:
    * `sendRecv_clean` — what an exchange that begins clean does and what it
      leaves behind: the body of the response, or the rest of a request.
    * `sendRecv_consumed` — when it leaves nothing behind.
    * `client_exchanges_own` — in a run in which each exchange comes behind
      exchanges of the kind that leave nothing, each request is written as it
      is and each result is that of the response to its request.
    * `second_get_reads_first_body` — two requests in a row break this.
-/

import Petrel.Framework.Machine
import Petrel.Lib.HttpHead

namespace Petrel

open Framework

/-! ## §1. Reads and writes. -/

/-- What a wait for the socket ends with. -/
inductive ReadEvent where
  | data (n : Nat)
  | eof
  | fail (msg : Bytes)

/-- What a composed read ends with. -/
inductive ReadEnd where
  | done
  | eof
  | fail (msg : Bytes)

/-- A read that has ended: the buffer, the bytes that are still to come, and
the events after the read. -/
structure ReadOutcome where
  ending : ReadEnd
  buf : Bytes
  inbound : Bytes
  events : List ReadEvent

/-- `async_read_until` and `async_read`: read until the buffer has enough.
None is a read that still waits.  The connection ends behind the last byte
that the server sends. -/
def asyncRead (enough : Bytes → Bool) (buf inbound : Bytes) : List ReadEvent → Option ReadOutcome
  | [] => if enough buf then some ⟨.done, buf, inbound, []⟩ else none
  | event :: next =>
      if enough buf then some ⟨.done, buf, inbound, event :: next⟩
      else
        match event with
        | .data n =>
            -- some of the bytes that are still to come arrive
            if 1 ≤ n ∧ n ≤ inbound.length then
              asyncRead enough (buf ++ inbound.take n) (inbound.drop n) next
            else none
        | .eof => if inbound = [] then some ⟨.eof, buf, inbound, next⟩ else none
        | .fail msg => some ⟨.fail msg, buf, inbound, next⟩

/-- What `async_write` ends with; a write that fails has consumed what it has
transferred. -/
inductive WriteEnd where
  | ok
  | error (transferred : Nat) (msg : Bytes)
  deriving DecidableEq

/-- What a `connect` ends with. -/
inductive ConnectEnd where
  | ok
  | resolveFailed (msg : Bytes)
  | failed (msg : Bytes)

/-- What the environment does in an exchange: the end of the write, the
response to the request (none if the server does not get it), what the server
has to say to bytes in front of the request, and the arrival of the bytes. -/
structure ExchangeIo where
  write : WriteEnd
  response : Option HttpResponse
  stray : Bytes := []
  reads : List ReadEvent

/-- The bytes of the response. -/
def ExchangeIo.answer (io : ExchangeIo) : Bytes :=
  match io.response with
  | some r => r.encode
  | none => []

/-! ## §2. The client. -/

/-- A client object.  `socket` holds the bytes that are still to come on the
connection, if there is one. -/
structure HttpClient where
  reqBuf : Bytes := []
  resBuf : Bytes := []
  host : Bytes := []
  port : Bytes := []
  keepAlive : Bool := true
  connected : Bool := false
  socket : Option Bytes := none
  deriving DecidableEq

/-- The two results of a call, or the message of its error (the position that
`luaL_error` puts in front of the message is left out). -/
abbrev ClientResult := Except Bytes (Int × Bytes)

namespace HttpClient

def connect (c : HttpClient) (host : Bytes) (port : Option Bytes) (e : ConnectEnd) :
    HttpClient × Except Bytes Unit :=
  let c := { c with host := cStr host, port := (port.map cStr).getD (bytes "80") }
  match e with
  | .ok => ({ c with socket := some [], connected := true }, .ok ())
  -- an exception of the resolver leaves the old socket as it is
  | .resolveFailed msg => (c, .error (bytes "connect failed: " ++ cStr msg))
  -- `async_connect` closes the socket before it opens it again
  | .failed msg => ({ c with socket := none }, .error (bytes "connect failed: " ++ cStr msg))

def close (c : HttpClient) : HttpClient :=
  if c.connected then { c with socket := none, connected := false } else c

def disconnect (c : HttpClient) : HttpClient := c.close

def disableKeepalive (c : HttpClient) : HttpClient := { c with keepAlive := false }

/-- The lines that `get` and `post` share. -/
def requestHead (c : HttpClient) (method path : Bytes) : Bytes :=
  method ++ bytes " " ++ cStr path ++ bytes " HTTP/1.1\r\n" ++
  bytes "Host: " ++ c.host ++ bytes "\r\n" ++
  bytes "Accept: */*\r\n" ++
  bytes "User-Agent: petrel/http_client\r\n" ++
  if !c.keepAlive then bytes "Connection: keep-alive\r\n" else []

def getRequest (c : HttpClient) (path : Bytes) : Bytes :=
  c.requestHead (bytes "GET") path ++ bytes "\r\n"

/-- A second argument that is no string is no data. -/
def postRequest (c : HttpClient) (path : Bytes) (data : Option Bytes) : Bytes :=
  let data := data.getD []
  c.requestHead (bytes "POST") path ++
  bytes "Content-Length: " ++ bytes (toString data.length) ++ bytes "\r\n\r\n" ++ data

/-- What reading a response ends with. -/
structure Received where
  result : ClientResult
  resBuf : Bytes
  inbound : Bytes

/-- `send_recv` from the check for a redirect on: the head is read, and the
buffer holds what came with it. -/
def deliver (head : Head) (buf inbound : Bytes) (reads : List ReadEvent) : Option Received :=
  -- what is left in the buffer is not consumed
  if head.status = 302 then
    if head.location = [] then
      some ⟨.error (bytes "invalid 302 redirect: no location header"), buf, inbound⟩
    else some ⟨.ok (head.status, cStr head.location), buf, inbound⟩
  else if head.contentLen = 0 then some ⟨.ok (head.status, []), buf, inbound⟩
  else
    -- the difference is a `size_t`
    let toRead := (((head.contentLen : Int) - buf.length) % 2 ^ 64).toNat
    if toRead = 0 then some ⟨.ok (head.status, buf), buf, inbound⟩
    else
      (asyncRead (fun b => buf.length + toRead ≤ b.length) buf inbound reads).map fun r =>
        match r.ending with
        | .fail msg => ⟨.error (bytes "read failed: " ++ cStr msg), r.buf, r.inbound⟩
        | .done | .eof => ⟨.ok (head.status, r.buf), r.buf, r.inbound⟩

/-- `send_recv` from `async_read_until` on. -/
def receive (resBuf inbound : Bytes) (reads : List ReadEvent) : Option Received :=
  (asyncRead hasBlankLine resBuf inbound reads).bind fun r =>
    match r.ending with
    | .fail msg => some ⟨.error (bytes "read failed: " ++ cStr msg), r.buf, r.inbound⟩
    | .done | .eof =>
        match parseHead r.buf with
        | (.error msg, buf) => some ⟨.error msg, buf, r.inbound⟩
        | (.ok head, buf) => deliver head buf r.inbound r.events

/-- What one call does. -/
structure Call where
  client : HttpClient
  written : Bytes
  result : ClientResult

/-- Write the request buffer and read a response. -/
def sendRecv (c : HttpClient) (io : ExchangeIo) : Option Call :=
  match io.write with
  | .error n msg =>
      -- nothing can be written without a connection
      if n < c.reqBuf.length ∧ (c.socket = none → n = 0) then
        some ⟨{ c with reqBuf := c.reqBuf.drop n }, c.reqBuf.take n, .error msg⟩
      else none
  | .ok =>
      -- the request is out: what is still to come is read before the answer
      c.socket.bind fun inbound =>
        (receive c.resBuf (inbound ++ io.stray ++ io.answer) io.reads).map fun r =>
          ⟨{ c with reqBuf := [], resBuf := r.resBuf, socket := some r.inbound }, c.reqBuf, r.result⟩

/-- The common part of `get` and `post`: append the request to the buffer and
send it.  A server that gets nothing but requests answers nothing else. -/
def exchange (c : HttpClient) (request : Bytes) (io : ExchangeIo) : Option Call :=
  if !c.connected then some ⟨c, [], .error (bytes "not connected")⟩
  else if c.reqBuf ≠ [] ∨ io.stray = [] then sendRecv { c with reqBuf := c.reqBuf ++ request } io
  else none

def get (c : HttpClient) (path : Bytes) (io : ExchangeIo) : Option Call :=
  c.exchange (c.getRequest path) io

def post (c : HttpClient) (path : Bytes) (data : Option Bytes) (io : ExchangeIo) : Option Call :=
  c.exchange (c.postRequest path data) io

end HttpClient

/-! ## §3. Runs of a client. -/

/-- A call that has reached `send_recv`, on the `conn`th connection. -/
structure Exchange where
  conn : Nat
  request : Bytes
  io : ExchangeIo
  written : Bytes
  result : ClientResult

/-- A client object, the number of connections that it has had, and its
exchanges, the last one first. -/
structure ClientState where
  client : HttpClient := {}
  conns : Nat := 0
  log : List Exchange := []

/-- The methods. -/
inductive ClientAction where
  | connect (host : Bytes) (port : Option Bytes) (e : ConnectEnd)
  | disconnect
  | disableKeepalive
  | get (path : Bytes) (io : ExchangeIo)
  | post (path : Bytes) (data : Option Bytes) (io : ExchangeIo)

/-- Note a call of `get` or `post`. -/
def ClientState.note (s : ClientState) (request : Bytes) (io : ExchangeIo) (call : HttpClient.Call) :
    ClientState where
  client := call.client
  conns := s.conns
  log := if s.client.connected then ⟨s.conns, request, io, call.written, call.result⟩ :: s.log else s.log

/-- How many connections a `connect` makes. -/
def ConnectEnd.count : ConnectEnd → Nat
  | .ok => 1
  | .resolveFailed _ | .failed _ => 0

def clientStep (s : ClientState) : ClientAction → Option ClientState
  | .connect host port e =>
      some { s with client := (s.client.connect host port e).1, conns := s.conns + e.count }
  | .disconnect => some { s with client := s.client.disconnect }
  | .disableKeepalive => some { s with client := s.client.disableKeepalive }
  | .get path io => (s.client.get path io).map (s.note (s.client.getRequest path) io)
  | .post path data io => (s.client.post path data io).map (s.note (s.client.postRequest path data) io)

/-- A new client object and the calls of its methods. -/
def clientMachine : Machine ClientState ClientAction where
  init := {}
  step := clientStep

/-! ## §4. One exchange. -/

/-- The status and the body of a response. -/
def HttpResponse.answer (r : HttpResponse) : Int × Bytes := (r.code.value, r.body)

/-- The exchange writes its request, up to where the write fails, and a result
is the status and the body of the response to it. -/
def Exchange.Own (e : Exchange) : Prop :=
  (e.written = match e.io.write with
    | .ok => e.request
    | .error n _ => e.request.take n) ∧
  ∀ x, e.result = .ok x → e.io.write = .ok ∧ ∃ r, e.io.response = some r ∧ x = r.answer

/-- If the request gets out, the client can read the response: it is no
redirect, for which `send_recv` returns the location instead of the body, and
the client can tell the length of its body. -/
def ExchangeIo.Readable (io : ExchangeIo) : Prop :=
  io.write = .ok → ∀ r ∈ io.response, r.code.value ≠ 302 ∧ r.Readable

instance (io : ExchangeIo) : Decidable io.Readable := inferInstanceAs (Decidable (_ → _))

/-- Nothing of an earlier exchange is left where it would be taken for a part
of this one: not in the request buffer, and, if the request gets out, not in
the response buffer and not on the connection. -/
def HttpClient.Clean (c : HttpClient) (io : ExchangeIo) : Prop :=
  c.reqBuf = [] ∧ (io.write = .ok → c.resBuf = [] ∧ c.socket.getD [] = [])

/-- The next wait fails: a timeout, or an error of the connection. -/
def failsNext : List ReadEvent → Bool
  | .fail _ :: _ => true
  | _ => false

/-- The events behind the arrival of the next `n` bytes: none where these bytes
do not arrive, or not without others. -/
def behind : List ReadEvent → Nat → Option (List ReadEvent)
  | events, 0 => some events
  | .data d :: next, n + 1 => if 1 ≤ d ∧ d ≤ n + 1 then behind next (n + 1 - d) else none
  | _, _ + 1 => none

/-- Of the response only what is consumed arrives: nothing at all, or the head
alone, be it that there is no body or that the wait for it fails. -/
def ExchangeIo.Consumed (io : ExchangeIo) : Prop :=
  ∀ r ∈ io.response, failsNext io.reads = true ∨
    ∃ rest ∈ behind io.reads r.head.length, r.body = [] ∨ failsNext rest = true

/-- Nothing of the response is still to come: it has no body, and its head
arrives. -/
def ExchangeIo.Complete (io : ExchangeIo) : Prop :=
  ∀ r ∈ io.response, r.body = [] ∧ (behind io.reads r.head.length).isSome = true

instance (io : ExchangeIo) : Decidable io.Consumed :=
  inferInstanceAs (Decidable (∀ r ∈ io.response, _))

instance (io : ExchangeIo) : Decidable io.Complete :=
  inferInstanceAs (Decidable (∀ r ∈ io.response, _))

/-- What the earlier exchanges have been like for one of `io` to come: their
requests have got out, and, if the request of `io` does, only what is consumed
of their responses has arrived, what was still to come then has gone with its
connection, and the response of `io` can be read. -/
def ClientState.Allows (s : ClientState) (io : ExchangeIo) : Prop :=
  (∀ e ∈ s.log, e.io.write = .ok) ∧
  (io.write = .ok → ∀ e ∈ s.log, e.io.Consumed ∧ (e.conn < s.conns ∨ e.io.Complete)) ∧ io.Readable

instance (s : ClientState) (io : ExchangeIo) : Decidable (s.Allows io) :=
  inferInstanceAs (Decidable (_ ∧ _))

/-- Every get or post that has a connection comes behind exchanges that allow
for it. -/
def BehindConsumed (s : ClientState) : ClientAction → Prop
  | .get _ io => s.client.connected = true → s.Allows io
  | .post _ _ io => s.client.connected = true → s.Allows io
  | _ => True

instance (s : ClientState) : (a : ClientAction) → Decidable (BehindConsumed s a)
  | .get .. | .post .. => inferInstanceAs (Decidable (_ → _))
  | .connect .. | .disconnect | .disableKeepalive => inferInstanceAs (Decidable True)

/-- A read that has nothing to wait for. -/
theorem asyncRead_of_enough {enough : Bytes → Bool} {buf : Bytes} (h : enough buf = true)
    (inbound : Bytes) (events : List ReadEvent) :
    asyncRead enough buf inbound events = some ⟨.done, buf, inbound, events⟩ := by
  cases events <;> exact if_pos h

/-- **A read moves bytes** from the connection to the end of the buffer. -/
theorem asyncRead_spec {enough : Bytes → Bool} {events : List ReadEvent} :
    ∀ {buf inbound : Bytes} {r : ReadOutcome}, asyncRead enough buf inbound events = some r →
      r.buf ++ r.inbound = buf ++ inbound ∧ (r.ending = .done → enough r.buf = true) ∧
        (r.ending = .eof → r.inbound = []) := by
  induction events with
  | nil =>
      intro buf inbound r h
      by_cases hb : enough buf = true
      · obtain rfl := Option.some.inj ((asyncRead_of_enough hb inbound []).symm.trans h)
        exact ⟨rfl, fun _ => hb, fun he => nomatch he⟩
      · unfold asyncRead at h
        rw [if_neg hb] at h
        cases h
  | cons event next ih =>
      intro buf inbound r h
      by_cases hb : enough buf = true
      · obtain rfl := Option.some.inj ((asyncRead_of_enough hb inbound (event :: next)).symm.trans h)
        exact ⟨rfl, fun _ => hb, fun he => nomatch he⟩
      · unfold asyncRead at h
        rw [if_neg hb] at h
        cases event with
        | data n =>
            dsimp only at h
            by_cases hn : 1 ≤ n ∧ n ≤ inbound.length
            · rw [if_pos hn] at h
              obtain ⟨hbytes, hrest⟩ := ih h
              refine ⟨?_, hrest⟩
              -- the bytes that arrive go from the one to the other
              rw [hbytes, List.append_assoc, List.take_append_drop]
            · rw [if_neg hn] at h
              cases h
        | eof =>
            dsimp only at h
            by_cases hi : inbound = []
            · rw [if_pos hi] at h
              obtain rfl := Option.some.inj h
              exact ⟨rfl, (fun he => nomatch he), fun _ => hi⟩
            · rw [if_neg hi] at h
              cases h
        | fail msg =>
            obtain rfl := Option.some.inj h
            exact ⟨rfl, (fun he => nomatch he), fun he => nomatch he⟩

/-- A first read that does not fail has read the head of the response. -/
theorem asyncRead_head {r : HttpResponse} {events : List ReadEvent} {o : ReadOutcome}
    (h : asyncRead hasBlankLine [] r.encode events = some o) (hend : ∀ msg, o.ending ≠ .fail msg) :
    ∃ rest, o.buf = r.head ++ rest ∧ rest ++ o.inbound = r.body := by
  obtain ⟨hbytes, hdone, heof⟩ := asyncRead_spec h
  have hall : o.buf ++ o.inbound = r.head ++ r.body := hbytes
  -- the read has stopped behind a blank line, or at the end of the response
  have hhead : r.head <+: o.buf := by
    cases he : o.ending with
    | done =>
        have hbegin : o.buf <+: r.head ++ r.body := ⟨o.inbound, hall⟩
        exact hasBlankLine_encode r hbegin (hdone he)
    | eof =>
        rw [heof he, List.append_nil] at hall
        exact ⟨r.body, hall.symm⟩
    | fail msg => exact absurd he (hend msg)
  obtain ⟨rest, hrest⟩ := hhead
  refine ⟨rest, hrest.symm, ?_⟩
  rw [← hrest, List.append_assoc] at hall
  exact List.append_cancel_left hall

/-- A second read that does not fail has read the body. -/
theorem asyncRead_body {body rest inbound : Bytes} (hbody : rest ++ inbound = body) {toRead : Nat}
    (hread : rest.length + toRead = body.length) {events : List ReadEvent} {o : ReadOutcome}
    (h : asyncRead (fun b => decide (rest.length + toRead ≤ b.length)) rest inbound events = some o)
    (hend : ∀ msg, o.ending ≠ .fail msg) : o.buf = body ∧ o.inbound = [] := by
  obtain ⟨hbytes, hdone, heof⟩ := asyncRead_spec h
  rw [hbody] at hbytes
  -- the buffer has as many bytes as the body, or the connection has ended
  have hempty : o.inbound = [] := by
    cases he : o.ending with
    | done =>
        have hlen := of_decide_eq_true (hdone he)
        have htotal := congrArg List.length hbytes
        rw [List.length_append] at htotal
        exact List.length_eq_zero_iff.mp (by omega)
    | eof => exact heof he
    | fail msg => exact absurd he (hend msg)
  rw [hempty, List.append_nil] at hbytes
  exact ⟨hbytes, hempty⟩

/-- What is delivered of a response whose head has been read. -/
theorem deliver_encode {r : HttpResponse} (h302 : r.code.value ≠ 302) (hr : r.Readable) {rest inbound : Bytes}
    (hrest : rest ++ inbound = r.body) {events : List ReadEvent} {out : HttpClient.Received}
    (h : HttpClient.deliver { status := r.code.value, location := r.location, contentLen := r.contentLen }
      rest inbound events = some out) {x : Int × Bytes} (hx : out.result = .ok x) :
    x = r.answer ∧ out.resBuf ++ out.inbound = r.body := by
  have hstatus : ¬ (r.code.value : Int) = 302 := by omega
  have hlen : r.contentLen = r.body.length := contentLen_readable hr
  have htotal : rest.length + inbound.length = r.body.length := by
    rw [← hrest, List.length_append]
  unfold HttpClient.deliver at h
  unfold HttpResponse.answer
  dsimp only at h
  rw [if_neg hstatus, hlen] at h
  by_cases hempty : r.body.length = 0
  · rw [if_pos hempty] at h
    obtain rfl := Option.some.inj h
    refine ⟨?_, hrest⟩
    rw [← Except.ok.inj hx, List.length_eq_zero_iff.mp hempty]
  · rw [if_neg hempty] at h
    -- the buffer holds no more than the body
    have htoRead : (((r.body.length : Int) - rest.length) % 2 ^ 64).toNat = inbound.length := by
      have := hr.1
      omega
    rw [htoRead] at h
    by_cases hall : inbound.length = 0
    · rw [if_pos hall] at h
      obtain rfl := Option.some.inj h
      refine ⟨?_, hrest⟩
      rw [List.length_eq_zero_iff.mp hall, List.append_nil] at hrest
      rw [← Except.ok.inj hx, hrest]
    · rw [if_neg hall] at h
      obtain ⟨o, ho, rfl⟩ := Option.map_eq_some_iff.mp h
      have hend : ∀ msg, o.ending ≠ .fail msg := by
        intro msg hmsg
        rw [hmsg] at hx
        cases hx
      obtain ⟨hbuf, hinbound⟩ := asyncRead_body hrest htotal ho hend
      cases he : o.ending with
      | fail msg => exact absurd he (hend msg)
      | done | eof =>
          rw [he] at hx
          rw [← Except.ok.inj hx]
          refine ⟨by rw [hbuf], ?_⟩
          show o.buf ++ o.inbound = _
          rw [hbuf, hinbound, List.append_nil]

/-- **Reading a response into an empty buffer** returns it, and leaves its body
behind. -/
theorem receive_encode {r : HttpResponse} (h302 : r.code.value ≠ 302) (hr : r.Readable)
    {events : List ReadEvent} {out : HttpClient.Received}
    (h : HttpClient.receive [] r.encode events = some out) {x : Int × Bytes} (hx : out.result = .ok x) :
    x = r.answer ∧ out.resBuf ++ out.inbound = r.body := by
  unfold HttpClient.receive at h
  obtain ⟨o, ho, h⟩ := Option.bind_eq_some_iff.mp h
  -- a failed read has no result
  have hend : ∀ msg, o.ending ≠ .fail msg := by
    intro msg hmsg
    rw [hmsg] at h
    obtain rfl := Option.some.inj h
    cases hx
  obtain ⟨rest, hbuf, hrest⟩ := asyncRead_head ho hend
  rw [hbuf, parseHead_encode] at h
  cases he : o.ending with
  | fail msg => exact absurd he (hend msg)
  | done | eof =>
      rw [he] at h
      exact deliver_encode h302 hr hrest h hx

/-- Without a response there is no result, and nothing is left. -/
theorem receive_nothing {events : List ReadEvent} {out : HttpClient.Received}
    (h : HttpClient.receive [] [] events = some out) :
    (∀ x, out.result ≠ .ok x) ∧ out.resBuf = [] ∧ out.inbound = [] := by
  unfold HttpClient.receive at h
  obtain ⟨o, ho, h⟩ := Option.bind_eq_some_iff.mp h
  obtain ⟨hbuf, hinbound⟩ := List.append_eq_nil_iff.mp (asyncRead_spec ho).1
  rw [hbuf, hinbound] at h
  cases he : o.ending with
  | fail msg =>
      rw [he] at h
      obtain rfl := Option.some.inj h
      refine ⟨?_, rfl, rfl⟩
      intro x hx
      cases hx
  | done | eof =>
      rw [he] at h
      obtain rfl := Option.some.inj h
      refine ⟨?_, rfl, rfl⟩
      intro x hx
      cases hx

/-- A request that gets out of a clean client is answered out of its response
alone. -/
theorem sendRecv_out {c : HttpClient} {request : Bytes} {io : ExchangeIo} (hc : c.Clean io)
    (hw : io.write = .ok) (hstray : c.reqBuf ≠ [] ∨ io.stray = []) {call : HttpClient.Call}
    (h : HttpClient.sendRecv { c with reqBuf := c.reqBuf ++ request } io = some call) :
    ∃ out, HttpClient.receive [] io.answer io.reads = some out ∧
      call = ⟨{ c with reqBuf := [], resBuf := out.resBuf, socket := some out.inbound }, request,
        out.result⟩ := by
  obtain ⟨hreq, hres⟩ := hc
  obtain ⟨hresBuf, hinbound⟩ := hres hw
  unfold HttpClient.sendRecv at h
  rw [hreq, List.nil_append, hw] at h
  dsimp only at h
  obtain ⟨inbound, hsocket, h⟩ := Option.bind_eq_some_iff.mp h
  obtain ⟨out, hout, rfl⟩ := Option.map_eq_some_iff.mp h
  -- nothing is read but the response to this request
  have hinbound : inbound = [] := by
    rw [show c.socket = some inbound from hsocket] at hinbound
    exact hinbound
  have hstray : io.stray = [] := hstray.resolve_left (fun hne => hne hreq)
  simp only [hresBuf, hinbound, hstray, List.nil_append] at hout
  exact ⟨out, hout, rfl⟩

/-- **What an exchange that begins clean does** and what it leaves behind: the
body of the response if it succeeds, the rest of the request if the write
fails. -/
theorem sendRecv_clean {c : HttpClient} {request : Bytes} {io : ExchangeIo} (hc : c.Clean io)
    (hio : io.Readable) (hstray : c.reqBuf ≠ [] ∨ io.stray = []) {call : HttpClient.Call}
    (h : HttpClient.sendRecv { c with reqBuf := c.reqBuf ++ request } io = some call) :
    (io.write = .ok ∧ call.written = request ∧ call.client.reqBuf = [] ∧
      ∀ x, call.result = .ok x → ∃ r, io.response = some r ∧ x = r.answer ∧
        call.client.resBuf ++ call.client.socket.getD [] = r.body) ∨
    (∃ n msg, io.write = .error n msg ∧ call.written = request.take n ∧ call.result = .error msg ∧
      call.client.reqBuf = request.drop n ∧ request.drop n ≠ []) := by
  cases hw : io.write with
  | error n msg =>
      unfold HttpClient.sendRecv at h
      rw [hc.1, List.nil_append, hw] at h
      dsimp only at h
      by_cases hn : n < request.length ∧ (c.socket = none → n = 0)
      · rw [if_pos hn] at h
        obtain rfl := Option.some.inj h
        refine .inr ⟨n, msg, rfl, rfl, rfl, rfl, ?_⟩
        intro hnil
        have := List.drop_eq_nil_iff.mp hnil
        omega
      · rw [if_neg hn] at h
        cases h
  | ok =>
      obtain ⟨out, hout, rfl⟩ := sendRecv_out hc hw hstray h
      refine .inl ⟨rfl, rfl, rfl, ?_⟩
      intro x hx
      unfold ExchangeIo.answer at hout
      cases hr : io.response with
      | none =>
          rw [hr] at hout
          exact absurd hx ((receive_nothing hout).1 x)
      | some r =>
          rw [hr] at hout
          obtain ⟨h302, hread⟩ := hio hw r hr
          have hanswer := receive_encode h302 hread hout hx
          exact ⟨r, rfl, hanswer.1, hanswer.2⟩

/-! ## §5. Exchanges that leave nothing. -/

/-- An empty buffer has no blank line, but a head has one. -/
theorem head_length_pos (r : HttpResponse) : 0 < r.head.length := by
  have hblank := hasBlankLine_iff r.toHead (show [] <+: r.toHead.encode ++ [] from List.nil_prefix)
  have hnone : ¬ hasBlankLine [] = true := by decide
  exact Nat.pos_of_ne_zero fun hzero => hnone (hblank.mpr (by
    show r.head.length ≤ 0
    omega))

/-- Nothing arrives before a failure. -/
theorem behind_of_failsNext {events : List ReadEvent} (h : failsNext events = true) {n : Nat}
    (hn : 0 < n) : behind events n = none := by
  obtain ⟨m, rfl⟩ : ∃ m, n = m + 1 := ⟨n - 1, by omega⟩
  cases events with
  | nil => cases h
  | cons event next =>
      cases event with
      | data d => cases h
      | eof => cases h
      | fail msg => rfl

/-- A wait that fails leaves everything as it is. -/
theorem asyncRead_of_failsNext (enough : Bytes → Bool) {buf : Bytes} (hbuf : ¬ enough buf = true)
    (inbound : Bytes) {events : List ReadEvent} (h : failsNext events = true) :
    ∃ msg next, asyncRead enough buf inbound events = some ⟨.fail msg, buf, inbound, next⟩ := by
  cases events with
  | nil => cases h
  | cons event next =>
      cases event with
      | data d => cases h
      | eof => cases h
      | fail msg =>
          refine ⟨msg, next, ?_⟩
          unfold asyncRead
          exact if_neg hbuf

/-- A buffer with the whole head is enough. -/
theorem asyncRead_whole {r : HttpResponse} {buf inbound : Bytes} (hbytes : buf ++ inbound = r.encode)
    (hlen : buf.length = r.head.length) (events : List ReadEvent) :
    asyncRead hasBlankLine buf inbound events = some ⟨.done, r.head, r.body, events⟩ := by
  obtain ⟨rfl, rfl⟩ := List.append_inj hbytes hlen
  have hprefix : r.head <+: r.toHead.encode ++ [] := List.prefix_append r.head []
  exact asyncRead_of_enough ((hasBlankLine_iff r.toHead hprefix).mpr (le_refl _)) _ _

/-- **A head that arrives alone** is read alone. -/
theorem asyncRead_behind {r : HttpResponse} {events : List ReadEvent} :
    ∀ {n : Nat} {buf inbound : Bytes} {rest : List ReadEvent}, buf ++ inbound = r.encode →
      buf.length + n = r.head.length → behind events n = some rest →
      asyncRead hasBlankLine buf inbound events = some ⟨.done, r.head, r.body, rest⟩ := by
  induction events with
  | nil =>
      intro n buf inbound rest hbytes hn h
      cases n with
      | zero =>
          obtain rfl := Option.some.inj h
          exact asyncRead_whole hbytes hn []
      | succ n => cases h
  | cons event next ih =>
      intro n buf inbound rest hbytes hn h
      cases n with
      | zero =>
          obtain rfl := Option.some.inj h
          exact asyncRead_whole hbytes hn _
      | succ n =>
          -- the head is not whole yet
          have hprefix : buf <+: r.toHead.encode ++ r.body := ⟨inbound, hbytes⟩
          have hshort : ¬ hasBlankLine buf = true := by
            intro hblank
            have hle : r.head.length ≤ buf.length := (hasBlankLine_iff r.toHead hprefix).mp hblank
            omega
          cases event with
          | eof => cases h
          | fail msg => cases h
          | data d =>
              unfold behind at h
              obtain ⟨hd, h⟩ := Option.ite_none_right_eq_some.mp h
              have htotal := congrArg List.length hbytes
              unfold HttpResponse.encode at htotal
              rw [List.length_append, List.length_append] at htotal
              have hin : 1 ≤ d ∧ d ≤ inbound.length := by omega
              unfold asyncRead
              rw [if_neg hshort]
              dsimp only
              rw [if_pos hin]
              refine ih ?_ ?_ h
              · rw [List.append_assoc, List.take_append_drop, hbytes]
              · rw [List.length_append, List.length_take, min_eq_left hin.2]
                omega

/-- A body that does not begin to arrive stays on the connection. -/
theorem deliver_behind {r : HttpResponse} (h302 : r.code.value ≠ 302) (hr : r.Readable)
    {events : List ReadEvent} (hevents : r.body = [] ∨ failsNext events = true)
    {out : HttpClient.Received}
    (h : HttpClient.deliver { status := r.code.value, location := r.location, contentLen := r.contentLen }
      [] r.body events = some out) : out.resBuf = [] ∧ out.inbound = r.body := by
  have hstatus : ¬ (r.code.value : Int) = 302 := by omega
  have hlen : r.contentLen = r.body.length := contentLen_readable hr
  unfold HttpClient.deliver at h
  dsimp only at h
  rw [if_neg hstatus, hlen] at h
  by_cases hempty : r.body.length = 0
  · rw [if_pos hempty] at h
    obtain rfl := Option.some.inj h
    exact ⟨rfl, rfl⟩
  · have htoRead : (((r.body.length : Int) - ([] : Bytes).length) % 2 ^ 64).toNat = r.body.length := by
      have := hr.1
      show (((r.body.length : Int) - (0 : Nat)) % 2 ^ 64).toNat = _
      omega
    rw [if_neg hempty, htoRead, if_neg hempty] at h
    have hfails : failsNext events = true :=
      hevents.resolve_left fun hbody => hempty (List.length_eq_zero_iff.mpr hbody)
    have hnone : ¬ decide (([] : Bytes).length + r.body.length ≤ ([] : Bytes).length) = true := by
      rw [decide_eq_true_eq]
      show ¬ 0 + r.body.length ≤ 0
      omega
    obtain ⟨msg, next, hread⟩ := asyncRead_of_failsNext
      (fun b => decide (([] : Bytes).length + r.body.length ≤ b.length)) hnone r.body hfails
    rw [hread] at h
    obtain rfl := Option.some.inj h
    exact ⟨rfl, rfl⟩

/-- **A response of which only the head arrives** leaves the buffer empty, and
its body on the connection. -/
theorem receive_consumed {io : ExchangeIo} (hc : io.Consumed) {r : HttpResponse}
    (hresponse : io.response = some r) (h302 : r.code.value ≠ 302) (hr : r.Readable)
    {out : HttpClient.Received} (h : HttpClient.receive [] r.encode io.reads = some out) :
    out.resBuf = [] ∧ (io.Complete → out.inbound = []) := by
  unfold HttpClient.receive at h
  rcases hc r hresponse with hfails | ⟨rest, hrest, hrest'⟩
  · -- nothing arrives
    have hnone : ¬ hasBlankLine [] = true := by decide
    obtain ⟨msg, next, hread⟩ := asyncRead_of_failsNext hasBlankLine hnone r.encode hfails
    rw [hread] at h
    obtain rfl := Option.some.inj h
    refine ⟨rfl, ?_⟩
    intro hcomplete
    have hsome := (hcomplete r hresponse).2
    rw [behind_of_failsNext hfails (head_length_pos r)] at hsome
    cases hsome
  · have hlen : ([] : Bytes).length + r.head.length = r.head.length := Nat.zero_add _
    rw [asyncRead_behind (List.nil_append _) hlen hrest, Option.bind_some] at h
    dsimp only at h
    have hhead := parseHead_encode r []
    rw [List.append_nil] at hhead
    rw [hhead] at h
    obtain ⟨hbuf, hinbound⟩ := deliver_behind h302 hr hrest' h
    refine ⟨hbuf, ?_⟩
    intro hcomplete
    rw [hinbound, (hcomplete r hresponse).1]

/-- **What an exchange that begins clean leaves behind**: nothing in the buffers
if only what is consumed arrives, and nothing on the connection if that is
everything. -/
theorem sendRecv_consumed {c : HttpClient} {request : Bytes} {io : ExchangeIo} (hc : c.Clean io)
    (hio : io.Readable) (hw : io.write = .ok) (hstray : c.reqBuf ≠ [] ∨ io.stray = [])
    (hconsumed : io.Consumed) {call : HttpClient.Call}
    (h : HttpClient.sendRecv { c with reqBuf := c.reqBuf ++ request } io = some call) :
    call.client.resBuf = [] ∧ (io.Complete → call.client.socket.getD [] = []) := by
  obtain ⟨out, hout, rfl⟩ := sendRecv_out hc hw hstray h
  unfold ExchangeIo.answer at hout
  cases hr : io.response with
  | none =>
      rw [hr] at hout
      obtain ⟨-, hbuf, hinbound⟩ := receive_nothing hout
      exact ⟨hbuf, fun _ => hinbound⟩
  | some r =>
      rw [hr] at hout
      obtain ⟨h302, hread⟩ := hio hw r hr
      exact receive_consumed hconsumed hr h302 hread hout

/-! ## §6. Runs of exchanges. -/

/-- With a connection, `get` and `post` go on to `send_recv`. -/
theorem HttpClient.exchange_of_connected {c : HttpClient} (h : c.connected = true) (request : Bytes)
    (io : ExchangeIo) :
    c.exchange request io =
      if c.reqBuf ≠ [] ∨ io.stray = [] then HttpClient.sendRecv { c with reqBuf := c.reqBuf ++ request } io
      else none := by
  unfold HttpClient.exchange
  exact if_neg (by rw [h]; decide)

/-- **What holds between the calls**: the exchanges are their own, and each of
the three places in which something can be left is empty behind exchanges that
leave nothing there. -/
structure ClientState.Kept (s : ClientState) : Prop where
  own : ∀ e ∈ s.log, e.Own
  request : (∀ e ∈ s.log, e.io.write = .ok) → s.client.reqBuf = []
  response : (∀ e ∈ s.log, e.io.write = .ok ∧ e.io.Consumed) → s.client.resBuf = []
  inbound : (∀ e ∈ s.log, e.io.write = .ok ∧ e.io.Consumed ∧ (e.conn < s.conns ∨ e.io.Complete)) →
    s.client.socket.getD [] = []

/-- An exchange that the earlier ones allow begins clean. -/
theorem ClientState.Kept.clean {s : ClientState} (hk : s.Kept) {io : ExchangeIo} (ha : s.Allows io) :
    s.client.Clean io := by
  obtain ⟨hwrites, hrest, -⟩ := ha
  refine ⟨hk.request hwrites, ?_⟩
  intro hw
  constructor
  · exact hk.response fun e he => ⟨hwrites e he, (hrest hw e he).1⟩
  · exact hk.inbound fun e he => ⟨hwrites e he, hrest hw e he⟩

/-- An exchange that begins clean is about its own request and response. -/
theorem sendRecv_own {c : HttpClient} {request : Bytes} {io : ExchangeIo} (hc : c.Clean io)
    (hio : io.Readable) (hstray : c.reqBuf ≠ [] ∨ io.stray = []) {call : HttpClient.Call}
    (h : HttpClient.sendRecv { c with reqBuf := c.reqBuf ++ request } io = some call) (conn : Nat) :
    Exchange.Own ⟨conn, request, io, call.written, call.result⟩ := by
  rcases sendRecv_clean hc hio hstray h with ⟨hw, hwritten, -, hresult⟩ | ⟨n, msg, hw, hwritten, hresult, -⟩
  · refine ⟨by rw [hw]; exact hwritten, ?_⟩
    intro x hx
    obtain ⟨r, hr, hanswer, -⟩ := hresult x hx
    exact ⟨hw, r, hr, hanswer⟩
  · refine ⟨by rw [hw]; exact hwritten, ?_⟩
    intro x hx
    cases hresult.symm.trans hx

/-- A get or a post that the earlier exchanges allow. -/
theorem note_kept {s : ClientState} {request : Bytes} {io : ExchangeIo}
    (ha : s.client.connected = true → s.Allows io) (hk : s.Kept) {call : HttpClient.Call}
    (h : s.client.exchange request io = some call) : (s.note request io call).Kept := by
  by_cases hconn : s.client.connected = true
  · obtain ⟨hwrites, hrest, hio⟩ := ha hconn
    have hc := hk.clean (ha hconn)
    rw [HttpClient.exchange_of_connected hconn] at h
    obtain ⟨hstray, h⟩ := Option.ite_none_right_eq_some.mp h
    unfold ClientState.note
    rw [if_pos hconn]
    refine ⟨?_, ?_, ?_, ?_⟩
    · intro e he
      rcases List.mem_cons.mp he with rfl | he
      · exact sendRecv_own hc hio hstray h s.conns
      · exact hk.own e he
    · intro hall
      have hw : io.write = .ok := hall _ List.mem_cons_self
      obtain ⟨out, -, rfl⟩ := sendRecv_out hc hw hstray h
      rfl
    · intro hall
      obtain ⟨hw, hconsumed⟩ := hall _ List.mem_cons_self
      exact (sendRecv_consumed hc hio hw hstray hconsumed h).1
    · intro hall
      obtain ⟨hw, hconsumed, hgone⟩ := hall _ List.mem_cons_self
      -- there has been no connection since
      have hcomplete : io.Complete := hgone.resolve_left (lt_irrefl _)
      exact (sendRecv_consumed hc hio hw hstray hconsumed h).2 hcomplete
  · -- the call ends before it does anything
    have hcall : call.client = s.client := by
      unfold HttpClient.exchange at h
      rw [if_pos (by simpa using hconn)] at h
      obtain rfl := Option.some.inj h
      rfl
    unfold ClientState.note
    rw [if_neg hconn, hcall]
    exact hk

/-- A `connect` clears no buffer, but a connection that it makes is new. -/
theorem connect_kept {s : ClientState} (hk : s.Kept) (host : Bytes) (port : Option Bytes) (e : ConnectEnd) :
    ClientState.Kept { s with client := (s.client.connect host port e).1, conns := s.conns + e.count } := by
  cases e with
  | ok => exact ⟨hk.own, hk.request, hk.response, fun _ => rfl⟩
  | resolveFailed msg => exact ⟨hk.own, hk.request, hk.response, hk.inbound⟩
  | failed msg => exact ⟨hk.own, hk.request, hk.response, fun _ => rfl⟩

/-- Nor does a `disconnect`. -/
theorem disconnect_kept {s : ClientState} (hk : s.Kept) :
    ClientState.Kept { s with client := s.client.disconnect } := by
  unfold HttpClient.disconnect HttpClient.close
  by_cases hconn : s.client.connected = true
  · rw [if_pos hconn]
    exact ⟨hk.own, hk.request, hk.response, fun _ => rfl⟩
  · rw [if_neg hconn]
    exact hk

/-- One call of a method that meets the condition. -/
theorem kept_step {s t : ClientState} {a : ClientAction} (hk : s.Kept) (ha : BehindConsumed s a)
    (h : clientMachine.step s a = some t) : t.Kept := by
  cases a with
  | connect host port e =>
      obtain rfl := Option.some.inj h
      exact connect_kept hk host port e
  | disconnect =>
      obtain rfl := Option.some.inj h
      exact disconnect_kept hk
  | disableKeepalive =>
      obtain rfl := Option.some.inj h
      exact ⟨hk.own, hk.request, hk.response, hk.inbound⟩
  | get path io =>
      obtain ⟨call, hcall, rfl⟩ := Option.map_eq_some_iff.mp h
      exact note_kept ha hk hcall
  | post path data io =>
      obtain ⟨call, hcall, rfl⟩ := Option.map_eq_some_iff.mp h
      exact note_kept ha hk hcall

theorem kept_init : ClientState.Kept clientMachine.init := by
  refine ⟨?_, fun _ => rfl, fun _ => rfl, fun _ => rfl⟩
  intro e he
  cases he

/-- **CLIENT EXCHANGES ARE THEIR OWN.**  In every run of one client object in
which each get and post comes behind exchanges that leave nothing and its
response can be read, each request is written as it is (a failed write stops in
it), and each result is the status and the body of the response to this
request. -/
theorem client_exchanges_own {s : ClientState} (h : clientMachine.ReachWhen BehindConsumed s) :
    ∀ e ∈ s.log, e.Own :=
  (h.invariant kept_init (fun _ _ _ hk ha hs => kept_step hk ha hs)).own

/-- A response 200 with a Content-Length header and a body. -/
def plainResponse (length : Numeral) (body : Bytes) (h : length.value = body.length) : HttpResponse where
  version := bytes "1.1"
  code := ⟨bytes "200", by decide, by decide +kernel⟩
  reason := bytes "OK"
  headers := [
    { name := bytes "Content-Length"
      field := byte ' ' :: length.text
      nameBytes := by unfold LineByte; decide +kernel
      fieldBytes := by
        intro c hc
        rcases List.mem_cons.mp hc with rfl | hc
        · exact ⟨by decide, by decide⟩
        · exact isDigit_lineByte c (length.digits c hc) }]
  body := body
  versionBytes := by unfold LineByte; decide +kernel
  codeRange := by decide +kernel
  reasonBytes := by unfold LineByte; decide +kernel
  hasLength := by
    refine ⟨_, List.mem_singleton_self _, ?_⟩
    show (bytes "Content-Length").map lower = bytes "content-length"
    decide +kernel
  lengths := by
    intro l hl _
    obtain rfl := List.mem_singleton.mp hl
    refine ⟨[byte ' '], [], length, ?_, ?_, ?_, h⟩
    · show byte ' ' :: length.text = byte ' ' :: length.text ++ []
      rw [List.append_nil]
    · intro c hc
      exact .inl (List.mem_singleton.mp hc)
    · intro c hc
      cases hc

/-- A response without a body, and one with a body of five bytes. -/
def emptyResponse : HttpResponse := plainResponse ⟨bytes "0", by decide, by decide +kernel⟩ [] (by decide)

def ownResponse : HttpResponse :=
  plainResponse ⟨bytes "5", by decide, by decide +kernel⟩ (bytes "mine!") (by decide +kernel)

/-- A response whose body is a HTTP message, as a mirror has it. -/
def messageResponse : HttpResponse :=
  plainResponse ⟨bytes "40", by decide, by decide +kernel⟩
    (bytes "HTTP/1.1 200 OK\r\nContent-Length: 2\r\n\r\nhi") (by decide +kernel)

/-- A get whose bytes all arrive at once. -/
def plainGet (path : String) (r : HttpResponse) : ClientAction :=
  .get (bytes path) { write := .ok, response := some r, reads := [.data r.encode.length] }

/-- Three exchanges: the first response has no body, the body of the second one
does not come in time, and the third one has another connection. -/
theorem client_exchanges_own_reconnect :
    ∃ s, clientMachine.ReachWhen BehindConsumed s ∧
      s.log.map (fun e => e.result.toOption) = [some (200, bytes "mine!"), none, some (200, [])] ∧
      ∀ e ∈ s.log, e.Own := by
  obtain ⟨s, hs, hp⟩ := Machine.exists_reachWhen_of_run clientMachine BehindConsumed
    [.connect (bytes "localhost") none .ok, plainGet "/a" emptyResponse,
      .get (bytes "/b") { write := .ok, response := some messageResponse, reads :=
        [.data messageResponse.head.length, .fail (bytes "Operation canceled")] },
      .disconnect, .connect (bytes "localhost") none .ok, plainGet "/c" ownResponse]
    (fun s => s.log.map (fun e => e.result.toOption) = [some (200, bytes "mine!"), none, some (200, [])])
    (by decide +kernel)
  exact ⟨s, hs, hp, client_exchanges_own hs⟩

theorem ok_of_toOption {ε α : Type} {r : Except ε α} {x : α} (h : r.toOption = some x) :
    r = .ok x := by
  cases r with
  | error e => cases h
  | ok y => rw [Option.some.inj h]

/-- **A SECOND GET READS THE FIRST BODY.**  Two requests on one connection,
with no error at all: the body of the first response is still in `m_res_buf`
when the second exchange begins, and the second call returns what it says. -/
theorem second_get_reads_first_body :
    ∃ s, clientMachine.Reach s ∧ ∃ e ∈ s.log,
      e.io.response.map HttpResponse.answer = some (200, bytes "mine!") ∧
      e.result = .ok (200, bytes "hi") ∧ ¬ e.Own := by
  obtain ⟨s, hs, hp⟩ := Machine.exists_reach_of_run clientMachine
    [.connect (bytes "localhost") none .ok, plainGet "/a" messageResponse, plainGet "/b" ownResponse]
    (fun s => s.log.head?.map (fun e => (e.io.response.map HttpResponse.answer, e.result.toOption)) =
      some (some (200, bytes "mine!"), some (200, bytes "hi")))
    (by decide +kernel)
  obtain ⟨e, he, hpair⟩ := Option.map_eq_some_iff.mp hp
  obtain ⟨hanswer, hoption⟩ := Prod.mk.inj hpair
  have hresult : e.result = .ok (200, bytes "hi") := ok_of_toOption hoption
  refine ⟨s, hs, e, List.mem_of_mem_head? he, hanswer, hresult, ?_⟩
  rintro ⟨-, hown⟩
  obtain ⟨-, r, hr, hx⟩ := hown _ hresult
  rw [hr, Option.map_some, ← hx] at hanswer
  exact absurd (Option.some.inj hanswer) (by decide +kernel)

end Petrel
