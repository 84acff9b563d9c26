/-
  Petrel.Core.Session — the connection loop of the HTTP/1 front end.

  A session reads a request, calls its route, waits for the response and
  writes it, as long as the socket is open.  Every operation of the socket
  suspends the fiber; what it returns, an error among it, is the choice of
  the environment and makes an event.  The request object of an iteration is
  new, and only one request is in work: the session does not read while it
  waits for a response.

  Main results:
    * `begun_step`, `explains_step` — what one event adds to the exchange in work.
    * `run_turns`             — complete exchanges run one behind the other.
    * `session_run_exchanges` — a run is a list of complete exchanges and the
      part of one more up to the place of the fiber, and a socket error ends it.
    * `session_serves_iff`    — which lists of requests a connection answers,
      and with what.
-/

import Petrel.Core.ErrorMetrics
import Petrel.Framework.Machine

namespace Petrel

open Framework

/-! ## §1. The socket and the places of the loop. -/

/-- `http::read_state`; the switch of the loop does nothing on the last. -/
inductive ReadState where
  | empty
  | messageReady
  | bodyReady
  | other
  deriving DecidableEq

/-- The error codes the catch block tells apart. -/
inductive SocketError where
  | eof
  | operationAborted
  | connectionReset
  | other
  deriving DecidableEq

/-- What leaves on the connection. -/
inductive SessionWrite where
  | continue
  | response (res : SentResponse)
  deriving DecidableEq

/-- Where the fiber of a session is in `session::start`. -/
inductive SessionPc where
  | testing                                        -- at the loop test
  | readingHead (req : HttpRequest)                -- in `async_read_request`
  | continuing (req : HttpRequest) (rs : ReadState)  -- in `async_write_response_continue`
  | readingBody (req : HttpRequest) (rs : ReadState) -- at the test of the inner loop
  | handling (req : HttpRequest)                   -- has called the route, in `wait`
  | writing (res : SentResponse)                   -- in `async_write_response`
  | hung                                           -- the promise will never be set
  | left                                           -- has left the loop
  | dead                                           -- an exception has ended the process

/-- `session`; `routed`, `wire` and `logged` record the requests that were
handed to a route, what was written and the errors that were logged. -/
structure SessionState where
  pc : SessionPc := .testing
  isOpen : Bool := true
  routed : List HttpRequest := []
  wire : List SessionWrite := []
  logged : List SocketError := []

/-- What the operations of the fiber return.  The loop test finds the socket
open or closed and reads its remote endpoint; `handle` is the run of the route
and its fiber. -/
inductive SessionEvent (Num : Type) where
  | test (isOpen : Bool) (remote : Except SocketError (Bytes × Bool))
  | readRequest (r : Except SocketError (Bytes × Bytes × Headers × ReadState))
  | writeContinue (r : Except SocketError Unit)
  | readSome (r : Except SocketError (Bytes × ReadState))
  | readTrailers (r : Except SocketError (Headers × ReadState))
  | route
  | handle (env : RouteEnv Num) (fuel : Nat)
  | writeResponse (r : Except SocketError Unit)

/-! ## §2. The steps. -/

/-- The request object of an iteration, before anything is read. -/
def HttpRequest.new (remote : Bytes × Bool) : HttpRequest :=
  ⟨[], [], [], [], remote.1, remote.2⟩

/-- `async_read_request`. -/
def HttpRequest.withHead (req : HttpRequest) (method path : Bytes) (headers : Headers) :
    HttpRequest :=
  { req with method := method, path := path, headers := headers }

/-- `async_read_some` appends to the body of the message. -/
def HttpRequest.append (req : HttpRequest) (data : Bytes) : HttpRequest :=
  { req with body := req.body ++ data }

/-- The error codes that are not logged. -/
def SocketError.expected : SocketError → Bool
  | .eof | .operationAborted | .connectionReset => true
  | .other => false

/-- The catch block of `session::start`. -/
def SessionState.fail (s : SessionState) (e : SocketError) : SessionState :=
  { s with pc := .left, logged := if e.expected then s.logged else s.logged ++ [e] }

section Steps

variable {Num : Type} [DecidableEq Num] [LuaNumber Num]

/-- What the run of the route leaves the session: the response the promise was
set for, no response, or the end of the process. -/
def SessionState.afterRoute (s : SessionState) :
    Outcome Bytes Fault (Serving Num) Unit → Option SessionState
  | .returned _ t =>
      match t.handling.req.sent.head? with
      | some res => some { s with pc := .writing res }
      | none => some { s with pc := .hung }
  | .threw _ _ | .died _ _ => some { s with pc := .dead }
  -- the handler is still running
  | .exhausted _ => none

/-- `session::start` and `session::send_response`; `continueRequired` is
`http::request_continue_required`. -/
def sessionStep (srv : ServerImpl) (continueRequired : Headers → Bool) (s : SessionState) :
    SessionEvent Num → Option SessionState
  | .test isOpen remote =>
      match s.pc with
      | .testing =>
          if s.isOpen && isOpen then
            match remote with
            | .ok remote => some { s with pc := .readingHead (.new remote) }
            | .error e => some (s.fail e)
          else some { s with isOpen := false, pc := .left }
      | _ => none
  | .readRequest r =>
      match s.pc with
      | .readingHead req =>
          match r with
          | .ok (method, path, headers, rs) =>
              let req := req.withHead method path headers
              if continueRequired headers then some { s with pc := .continuing req rs }
              else some { s with pc := .readingBody req rs }
          | .error e => some (s.fail e)
      | _ => none
  | .writeContinue r =>
      match s.pc with
      | .continuing req rs =>
          match r with
          | .ok () => some { s with pc := .readingBody req rs, wire := s.wire ++ [.continue] }
          | .error e => some (s.fail e)
      | _ => none
  | .readSome r =>
      match s.pc with
      | .readingBody req .messageReady =>
          match r with
          | .ok (data, rs) => some { s with pc := .readingBody (req.append data) rs }
          | .error e => some (s.fail e)
      | _ => none
  | .readTrailers r =>
      match s.pc with
      | .readingBody req .bodyReady =>
          match r with
          -- no code reads the trailers of a message
          | .ok (_, rs) => some { s with pc := .readingBody req rs }
          | .error e => some (s.fail e)
      | _ => none
  | .route =>
      match s.pc with
      | .readingBody req .empty => some { s with pc := .handling req, routed := s.routed ++ [req] }
      | _ => none
  | .handle env fuel =>
      match s.pc with
      | .handling req => s.afterRoute (srv.serve env fuel (.http req))
      | _ => none
  | .writeResponse r =>
      match s.pc with
      | .writing res =>
          match r with
          | .ok () => some { s with pc := .testing, wire := s.wire ++ [.response res] }
          -- `send_response` catches the error itself and closes the socket
          | .error e => some { s with pc := .testing, isOpen := false, logged := s.logged ++ [e] }
      | _ => none

/-- A session of the server. -/
def sessionMachine (srv : ServerImpl) (continueRequired : Headers → Bool) :
    Machine SessionState (SessionEvent Num) where
  init := {}
  step := sessionStep srv continueRequired

end Steps

/-! ## §3. Exchanges. -/

/-- A piece of what follows the head of a request. -/
inductive RequestPart where
  | data (bytes : Bytes)
  | trailers (headers : Headers)

/-- The read state that announces a piece. -/
def RequestPart.state : RequestPart → ReadState
  | .data _ => .messageReady
  | .trailers _ => .bodyReady

/-- The read state before the pieces, when they end in the state `rs`. -/
def readStateOf (rs : ReadState) : List RequestPart → ReadState
  | [] => rs
  | part :: _ => part.state

/-- What a piece adds to the body. -/
def RequestPart.bytes : RequestPart → Bytes
  | .data bytes => bytes
  | .trailers _ => []

/-- The body the pieces make. -/
def bodyOf (parts : List RequestPart) : Bytes := parts.flatMap RequestPart.bytes

/-- A request as a client sends it, in the pieces in which it is read. -/
structure IncomingRequest where
  remote : Bytes × Bool
  method : Bytes
  path : Bytes
  headers : Headers
  parts : List RequestPart

/-- The request a session makes of it: the cuts do not show. -/
def IncomingRequest.request (c : IncomingRequest) : HttpRequest :=
  ⟨c.method, c.path, c.headers, bodyOf c.parts, c.remote.1, c.remote.2⟩

section Exchanges

variable {Num : Type}

/-- The read of a piece that leaves the state `rs`. -/
def RequestPart.event (rs : ReadState) : RequestPart → SessionEvent Num
  | .data bytes => .readSome (.ok (bytes, rs))
  | .trailers headers => .readTrailers (.ok (headers, rs))

/-- The reads of the pieces, the last of which leaves the state `rs`. -/
def partEvents (rs : ReadState) : List RequestPart → List (SessionEvent Num)
  | [] => []
  | part :: rest => part.event (readStateOf rs rest) :: partEvents rs rest

/-- The events up to where a request is read, with the read state `rs` then. -/
def IncomingRequest.readEvents (continueRequired : Headers → Bool) (rs : ReadState)
    (c : IncomingRequest) : List (SessionEvent Num) :=
  [.test true (.ok c.remote),
    .readRequest (.ok (c.method, c.path, c.headers, readStateOf rs c.parts))] ++
  (if continueRequired c.headers then [.writeContinue (.ok ())] else []) ++
  partEvents rs c.parts

/-- What is written before the response. -/
def IncomingRequest.interim (continueRequired : Headers → Bool) (c : IncomingRequest) :
    List SessionWrite :=
  if continueRequired c.headers then [.continue] else []

/-- One turn of the loop: a request and what its route meets. -/
structure Turn (Num : Type) where
  client : IncomingRequest
  env : RouteEnv Num
  fuel : Nat

/-- The events of a turn. -/
def Turn.events (continueRequired : Headers → Bool) (x : Turn Num) :
    List (SessionEvent Num) :=
  x.client.readEvents continueRequired .empty ++
    [.route, .handle x.env x.fuel, .writeResponse (.ok ())]

/-- An operation of the socket has failed. -/
def SessionEvent.Failed : SessionEvent Num → Prop
  | .test _ r => r.isOk = false
  | .readRequest r => r.isOk = false
  | .writeContinue r => r.isOk = false
  | .readSome r => r.isOk = false
  | .readTrailers r => r.isOk = false
  | .writeResponse r => r.isOk = false
  | .route | .handle _ _ => False

end Exchanges

section Runs

variable {Num : Type} [DecidableEq Num] [LuaNumber Num]
variable {srv : ServerImpl} {continueRequired : Headers → Bool}

/-- The response the run of the route leaves for the session. -/
def ServerImpl.response (srv : ServerImpl) (x : Turn Num) : Option SentResponse :=
  match srv.serve x.env x.fuel (.http x.client.request) with
  | .returned _ t => t.handling.req.sent.head?
  | _ => none

/-- What a turn writes. -/
def Turn.wire (srv : ServerImpl) (continueRequired : Headers → Bool) (x : Turn Num) :
    List SessionWrite :=
  x.client.interim continueRequired ++ (srv.response x).toList.map .response

/-! ## §4. Reading a request. -/

omit [DecidableEq Num] [LuaNumber Num] in
theorem readStateOf_concat (rs : ReadState) (parts : List RequestPart) (part : RequestPart) :
    readStateOf rs (parts ++ [part]) = readStateOf part.state parts := by
  cases parts <;> rfl

omit [DecidableEq Num] [LuaNumber Num] in
theorem partEvents_concat (rs : ReadState) (parts : List RequestPart) (part : RequestPart) :
    (partEvents rs (parts ++ [part]) : List (SessionEvent Num)) =
      partEvents part.state parts ++ [part.event rs] := by
  induction parts with
  | nil => rfl
  | cons p rest ih =>
      simp only [List.cons_append, partEvents]
      rw [ih, readStateOf_concat]

/-- One more piece has been read. -/
def IncomingRequest.more (c : IncomingRequest) (part : RequestPart) : IncomingRequest :=
  { c with parts := c.parts ++ [part] }

omit [DecidableEq Num] [LuaNumber Num] in
theorem readEvents_more (c : IncomingRequest) (part : RequestPart) (rs : ReadState) :
    ((c.more part).readEvents continueRequired rs : List (SessionEvent Num)) =
      c.readEvents continueRequired part.state ++ [part.event rs] := by
  unfold IncomingRequest.readEvents IncomingRequest.more
  simp only [readStateOf_concat, partEvents_concat, List.append_assoc]

theorem request_more (c : IncomingRequest) (part : RequestPart) :
    (c.more part).request = c.request.append part.bytes := by
  unfold IncomingRequest.request IncomingRequest.more HttpRequest.append bodyOf
  simp

/-- **The events of an exchange that is not complete**: the place they lead the
fiber to, what they have written and the requests they have handed to a route. -/
inductive Begun (srv : ServerImpl) (continueRequired : Headers → Bool) :
    List (SessionEvent Num) → SessionPc → List SessionWrite → List HttpRequest → Prop where
  | testing : Begun srv continueRequired [] .testing [] []
  | readingHead (remote : Bytes × Bool) :
      Begun srv continueRequired [.test true (.ok remote)] (.readingHead (.new remote)) [] []
  | continuing (c : IncomingRequest) (rs : ReadState) (hparts : c.parts = [])
      (hcontinue : continueRequired c.headers = true) :
      Begun srv continueRequired
        [.test true (.ok c.remote), .readRequest (.ok (c.method, c.path, c.headers, rs))]
        (.continuing c.request rs) [] []
  | readingBody (c : IncomingRequest) (rs : ReadState) :
      Begun srv continueRequired (c.readEvents continueRequired rs) (.readingBody c.request rs)
        (c.interim continueRequired) []
  | handling (c : IncomingRequest) :
      Begun srv continueRequired (c.readEvents continueRequired .empty ++ [.route])
        (.handling c.request) (c.interim continueRequired) [c.request]
  | writing (x : Turn Num) (res : SentResponse) (hres : srv.response x = some res) :
      Begun srv continueRequired
        (x.client.readEvents continueRequired .empty ++ [.route, .handle x.env x.fuel])
        (.writing res) (x.client.interim continueRequired) [x.client.request]

/-- The fiber will do nothing more. -/
def SessionState.Gone (s : SessionState) : Prop := s.pc = .left ∨ s.pc = .hung ∨ s.pc = .dead

/-- The events that end the session: a failed operation of the socket, a loop
test that finds it closed, and a run of the route that leaves no response. -/
inductive Ends (srv : ServerImpl) : SessionPc → SessionEvent Num → Prop where
  | failed {pc : SessionPc} {ev : SessionEvent Num} (h : ev.Failed) : Ends srv pc ev
  | closed (remote : Except SocketError (Bytes × Bool)) : Ends srv .testing (.test false remote)
  | unanswered (x : Turn Num) (h : srv.response x = none) :
      Ends srv (.handling x.client.request) (.handle x.env x.fuel)

/-- What an event makes of an exchange that is not complete. -/
inductive Next (srv : ServerImpl) (continueRequired : Headers → Bool)
    (tail : List (SessionEvent Num)) (ws : List SessionWrite) (rs : List HttpRequest)
    (s : SessionState) (ev : SessionEvent Num) (t : SessionState) : Prop where
  | goesOn (more : List SessionWrite) (handed : List HttpRequest)
      (begun : Begun srv continueRequired (tail ++ [ev]) t.pc (ws ++ more) (rs ++ handed))
      (isOpen : t.isOpen = s.isOpen) (wire : t.wire = s.wire ++ more)
      (routed : t.routed = s.routed ++ handed)
  | completes (x : Turn Num) (res : SentResponse)
      (events : tail ++ [ev] = x.events continueRequired) (hres : srv.response x = some res)
      (hws : ws = x.client.interim continueRequired) (hrs : rs = [x.client.request])
      (ht : t = { s with pc := .testing, wire := s.wire ++ [.response res] })
  | stops (ends : Ends srv s.pc ev) (gone : t.Gone) (wire : t.wire = s.wire)
      (routed : t.routed = s.routed)
  | unwritten (res : SentResponse) (e : SocketError) (hpc : s.pc = .writing res)
      (hev : ev = .writeResponse (.error e)) (testing : t.pc = .testing) (closed : t.isOpen = false)
      (wire : t.wire = s.wire) (routed : t.routed = s.routed)

theorem Next.left {tail : List (SessionEvent Num)} {ws : List SessionWrite} {rs : List HttpRequest}
    {s : SessionState} {ev : SessionEvent Num} {e : SocketError} (hev : ev.Failed) :
    Next srv continueRequired tail ws rs s ev (s.fail e) :=
  .stops (.failed hev) (.inl rfl) rfl rfl

/-- The events of a request that is read, under other names. -/
theorem Begun.of_readEvents {tail : List (SessionEvent Num)} {ws : List SessionWrite}
    {req : HttpRequest} {rs : ReadState} (c : IncomingRequest) (hreq : req = c.request)
    (htail : tail = c.readEvents continueRequired rs) (hws : ws = c.interim continueRequired) :
    Begun srv continueRequired tail (.readingBody req rs) ws [] := by
  subst hreq htail hws
  exact .readingBody c rs

/-- The head of the request. -/
theorem Next.head {s : SessionState} (remote : Bytes × Bool) (method path : Bytes)
    (headers : Headers) (rs : ReadState) :
    let req := (HttpRequest.new remote).withHead method path headers
    Next srv continueRequired [.test true (.ok remote)] [] [] s
      (.readRequest (.ok (method, path, headers, rs)) : SessionEvent Num)
      { s with pc := if continueRequired headers then .continuing req rs else .readingBody req rs } := by
  intro req
  refine .goesOn [] [] ?_ rfl (List.append_nil _).symm (List.append_nil _).symm
  let c : IncomingRequest := ⟨remote, method, path, headers, []⟩
  by_cases hcontinue : continueRequired headers = true
  · simp only [if_pos hcontinue]
    exact .continuing c rs rfl hcontinue
  · simp only [if_neg hcontinue]
    refine .of_readEvents c rfl ?_ ?_
    · simp [IncomingRequest.readEvents, c, hcontinue, partEvents, readStateOf]
    · simp [IncomingRequest.interim, c, hcontinue]

/-- One more piece of the request. -/
theorem Next.piece {c : IncomingRequest} {s : SessionState} (part : RequestPart) (rs : ReadState) :
    Next srv continueRequired (c.readEvents continueRequired part.state)
      (c.interim continueRequired) [] s (part.event rs : SessionEvent Num)
      { s with pc := .readingBody (c.request.append part.bytes) rs } := by
  refine .goesOn [] [] ?_ rfl (List.append_nil _).symm (List.append_nil _).symm
  exact .of_readEvents (c.more part) (request_more c part).symm (readEvents_more c part rs).symm
    (List.append_nil _)

/-- The response of the route. -/
theorem Next.answer {c : IncomingRequest} {s t : SessionState} {env : RouteEnv Num} {fuel : Nat}
    (hpc : s.pc = .handling c.request) (ht : s.afterRoute (srv.serve env fuel (.http c.request)) = some t) :
    Next srv continueRequired (c.readEvents continueRequired .empty ++ [.route])
      (c.interim continueRequired) [c.request] s (.handle env fuel) t := by
  let x : Turn Num := ⟨c, env, fuel⟩
  have hends : srv.response x = none → Ends srv s.pc (.handle env fuel) := fun h => by
    rw [hpc]
    exact .unanswered x h
  unfold ServerImpl.response at hends
  cases hserve : srv.serve env fuel (.http c.request) with
  | returned u v =>
      rw [hserve] at ht
      rw [show srv.serve x.env x.fuel (.http x.client.request) = .returned u v from hserve] at hends
      unfold SessionState.afterRoute at ht
      cases hsent : v.handling.req.sent.head? with
      | some res =>
          simp only [hsent, Option.some.injEq] at ht
          subst ht
          refine .goesOn [] [] ?_ rfl (List.append_nil _).symm (List.append_nil _).symm
          have hres : srv.response x = some res := by
            unfold ServerImpl.response
            rw [show srv.serve x.env x.fuel (.http x.client.request) = .returned u v from hserve]
            exact hsent
          have hwriting : Begun srv continueRequired _ (.writing res) _ _ := .writing x res hres
          simpa [x] using hwriting
      | none =>
          simp only [hsent, Option.some.injEq] at ht
          subst ht
          exact .stops (hends hsent) (.inr (.inl rfl)) rfl rfl
  | threw e v =>
      rw [hserve] at ht
      rw [show srv.serve x.env x.fuel (.http x.client.request) = .threw e v from hserve] at hends
      obtain rfl := Option.some.inj ht
      exact .stops (hends rfl) (.inr (.inr rfl)) rfl rfl
  | died d v =>
      rw [hserve] at ht
      rw [show srv.serve x.env x.fuel (.http x.client.request) = .died d v from hserve] at hends
      obtain rfl := Option.some.inj ht
      exact .stops (hends rfl) (.inr (.inr rfl)) rfl rfl
  | exhausted v =>
      rw [hserve] at ht
      cases ht

/-- **One event in an exchange**: the fiber goes on, the exchange is complete,
or the session has come to its end. -/
theorem begun_step {tail : List (SessionEvent Num)} {ws : List SessionWrite}
    {rs : List HttpRequest} {s t : SessionState} {ev : SessionEvent Num}
    (h : Begun srv continueRequired tail s.pc ws rs) (hopen : s.isOpen = true)
    (hstep : sessionStep srv continueRequired s ev = some t) :
    Next srv continueRequired tail ws rs s ev t := by
  generalize hpc : s.pc = pc at h
  cases h with
  | testing =>
      cases ev <;> simp only [sessionStep, hpc, reduceCtorEq] at hstep
      rename_i isOpen remote
      cases isOpen with
      | false =>
          simp only [Bool.and_false, Bool.false_eq_true, if_false, Option.some.injEq] at hstep
          subst hstep
          exact .stops (hpc ▸ .closed remote) (.inl rfl) rfl rfl
      | true =>
          simp only [hopen, Bool.and_self, if_true] at hstep
          cases remote with
          | error e =>
              obtain rfl := Option.some.inj hstep
              exact .left rfl
          | ok remote =>
              obtain rfl := Option.some.inj hstep
              exact .goesOn [] [] (.readingHead remote) hopen.symm (List.append_nil _).symm
                (List.append_nil _).symm
  | readingHead remote =>
      cases ev <;> simp only [sessionStep, hpc, reduceCtorEq] at hstep
      rename_i r
      cases r with
      | error e =>
          obtain rfl := Option.some.inj hstep
          exact .left rfl
      | ok head =>
          obtain ⟨method, path, headers, rs⟩ := head
          have hnext : let req := (HttpRequest.new remote).withHead method path headers
              Next srv continueRequired [.test true (.ok remote)] [] [] s
                (.readRequest (.ok (method, path, headers, rs)) : SessionEvent Num)
                { s with pc := if continueRequired headers then .continuing req rs
                  else .readingBody req rs } :=
            .head remote method path headers rs
          by_cases hc : continueRequired headers = true
          · simp only [hc, if_true, Option.some.injEq] at hstep hnext
            exact hstep ▸ hnext
          · simp only [hc, Bool.false_eq_true, if_false, Option.some.injEq] at hstep hnext
            exact hstep ▸ hnext
  | continuing c rs hparts hcontinue =>
      cases ev <;> simp only [sessionStep, hpc, reduceCtorEq] at hstep
      rename_i r
      cases r with
      | error e =>
          obtain rfl := Option.some.inj hstep
          exact .left rfl
      | ok u =>
          obtain rfl := Option.some.inj hstep
          refine .goesOn [.continue] [] ?_ rfl rfl (List.append_nil _).symm
          refine .of_readEvents c rfl ?_ ?_
          · simp [IncomingRequest.readEvents, hparts, hcontinue, partEvents, readStateOf]
          · simp [IncomingRequest.interim, hcontinue]
  | readingBody c rs =>
      cases ev <;> cases rs <;> simp only [sessionStep, hpc, reduceCtorEq] at hstep
      · rename_i r
        cases r with
        | error e =>
            obtain rfl := Option.some.inj hstep
            exact .left rfl
        | ok piece =>
            obtain rfl := Option.some.inj hstep
            exact .piece (.data piece.1) piece.2
      · rename_i r
        cases r with
        | error e =>
            obtain rfl := Option.some.inj hstep
            exact .left rfl
        | ok piece =>
            obtain rfl := Option.some.inj hstep
            have hnext : Next srv continueRequired (c.readEvents continueRequired _)
                (c.interim continueRequired) [] s
                ((RequestPart.trailers piece.1).event piece.2 : SessionEvent Num)
                { s with
                  pc := .readingBody (c.request.append (RequestPart.trailers piece.1).bytes) piece.2 } :=
              .piece (.trailers piece.1) piece.2
            have hsame : c.request.append [] = c.request := by
              unfold HttpRequest.append
              rw [List.append_nil]
            rw [show (RequestPart.trailers piece.1).bytes = [] from rfl, hsame] at hnext
            exact hnext
      · obtain rfl := Option.some.inj hstep
        exact .goesOn [] [c.request] (by simpa using .handling c) rfl (List.append_nil _).symm rfl
  | handling c =>
      cases ev <;> simp only [sessionStep, hpc, reduceCtorEq] at hstep
      exact .answer hpc hstep
  | writing x res hres =>
      cases ev <;> simp only [sessionStep, hpc, reduceCtorEq] at hstep
      rename_i r
      cases r with
      | error e =>
          obtain rfl := Option.some.inj hstep
          exact .unwritten res e hpc rfl rfl rfl rfl rfl
      | ok u =>
          obtain rfl := Option.some.inj hstep
          exact .completes x res (by simp [Turn.events]) hres rfl rfl rfl

/-! ## §5. Runs. -/

omit [DecidableEq Num] [LuaNumber Num] in
theorem readEvents_ne_write {c : IncomingRequest} {rs : ReadState} {ev : SessionEvent Num}
    (hev : ev ∈ c.readEvents continueRequired rs) : ev ≠ .writeResponse (.ok ()) := by
  have hparts : ∀ parts : List RequestPart, ∀ ev ∈ (partEvents rs parts : List (SessionEvent Num)),
      ev ≠ .writeResponse (.ok ()) := by
    intro parts
    induction parts with
    | nil => exact fun ev hev => absurd hev List.not_mem_nil
    | cons part rest ih =>
        intro ev hev
        rcases List.mem_cons.mp hev with rfl | hev
        · cases part <;> exact fun h => nomatch h
        · exact ih ev hev
  unfold IncomingRequest.readEvents at hev
  simp only [List.mem_append, List.mem_cons, List.not_mem_nil, or_false] at hev
  rcases hev with ((rfl | rfl) | hev) | hev
  · exact fun h => nomatch h
  · exact fun h => nomatch h
  · split at hev
    · obtain rfl := List.mem_singleton.mp hev
      exact fun h => nomatch h
    · exact absurd hev List.not_mem_nil
  · exact hparts c.parts ev hev

/-- Where a session is behind its complete exchanges: in one that has begun; in
one that an event has ended; or in one whose response could not be written,
before the loop test or behind it. -/
inductive SessionPlace (srv : ServerImpl) (continueRequired : Headers → Bool) (s : SessionState) :
    List (SessionEvent Num) → List SessionWrite → List HttpRequest → Prop where
  | working {tail : List (SessionEvent Num)} {ws : List SessionWrite} {rs : List HttpRequest}
      (begun : Begun srv continueRequired tail s.pc ws rs) (isOpen : s.isOpen = true) :
      SessionPlace srv continueRequired s tail ws rs
  | ended {tail : List (SessionEvent Num)} {ws : List SessionWrite} {rs : List HttpRequest}
      {pc : SessionPc} {ev : SessionEvent Num} (begun : Begun srv continueRequired tail pc ws rs)
      (ends : Ends srv pc ev) (gone : s.Gone) : SessionPlace srv continueRequired s (tail ++ [ev]) ws rs
  | unwritten {tail : List (SessionEvent Num)} {ws : List SessionWrite} {rs : List HttpRequest}
      {res : SentResponse} (begun : Begun srv continueRequired tail (.writing res) ws rs)
      (e : SocketError) (testing : s.pc = .testing) (closed : s.isOpen = false) :
      SessionPlace srv continueRequired s (tail ++ [.writeResponse (.error e)]) ws rs
  | tested {tail : List (SessionEvent Num)} {ws : List SessionWrite} {rs : List HttpRequest}
      {res : SentResponse} (begun : Begun srv continueRequired tail (.writing res) ws rs)
      (e : SocketError) (isOpen : Bool) (remote : Except SocketError (Bytes × Bool))
      (left : s.pc = .left) :
      SessionPlace srv continueRequired s (tail ++ [.writeResponse (.error e), .test isOpen remote]) ws rs

/-- An exchange that has begun has written no response. -/
theorem Begun.unanswered {tail : List (SessionEvent Num)} {ws : List SessionWrite}
    {rs : List HttpRequest} {pc : SessionPc} (h : Begun srv continueRequired tail pc ws rs) :
    (∀ ev ∈ tail, ev ≠ .writeResponse (.ok ())) ∧ (ws = [] ∨ ws = [.continue]) := by
  have hinterim : ∀ c : IncomingRequest, c.interim continueRequired = [] ∨
      c.interim continueRequired = [.continue] := by
    intro c
    unfold IncomingRequest.interim
    split
    · exact .inr rfl
    · exact .inl rfl
  cases h with
  | testing => exact ⟨fun ev hev => absurd hev List.not_mem_nil, .inl rfl⟩
  | readingHead remote => exact ⟨by simp, .inl rfl⟩
  | continuing c rs hparts hcontinue => exact ⟨by simp, .inl rfl⟩
  | readingBody c rs => exact ⟨fun ev hev => readEvents_ne_write hev, hinterim c⟩
  | handling c =>
      refine ⟨?_, hinterim c⟩
      intro ev hev
      rcases List.mem_append.mp hev with hev | hev
      · exact readEvents_ne_write hev
      · obtain rfl := List.mem_singleton.mp hev
        exact fun h => nomatch h
  | writing x res hres =>
      refine ⟨?_, hinterim x.client⟩
      intro ev hev
      rcases List.mem_append.mp hev with hev | hev
      · exact readEvents_ne_write hev
      · simp only [List.mem_cons, List.not_mem_nil, or_false] at hev
        rcases hev with rfl | rfl <;> exact fun h => nomatch h

omit [DecidableEq Num] [LuaNumber Num] in
theorem SessionEvent.Failed.ne_write {ev : SessionEvent Num} (h : ev.Failed) :
    ev ≠ .writeResponse (.ok ()) := by
  rintro rfl
  cases h

theorem Ends.ne_write {pc : SessionPc} {ev : SessionEvent Num} (h : Ends srv pc ev) :
    ev ≠ .writeResponse (.ok ()) := by
  cases h with
  | failed h => exact h.ne_write
  | closed remote =>
      intro h
      cases h
  | unanswered x hres =>
      intro h
      cases h

/-- What is behind the complete exchanges has written no response. -/
theorem SessionPlace.unanswered {tail : List (SessionEvent Num)} {ws : List SessionWrite}
    {rs : List HttpRequest} {s : SessionState} (h : SessionPlace srv continueRequired s tail ws rs) :
    (∀ ev ∈ tail, ev ≠ .writeResponse (.ok ())) ∧ (ws = [] ∨ ws = [.continue]) := by
  have hbehind : ∀ (before more : List (SessionEvent Num)),
      (∀ ev ∈ before, ev ≠ .writeResponse (.ok ())) → (∀ ev ∈ more, ev ≠ .writeResponse (.ok ())) →
      ∀ ev ∈ before ++ more, ev ≠ .writeResponse (.ok ()) := by
    intro before more hbefore hmore ev hev
    exact (List.mem_append.mp hev).elim (hbefore ev) (hmore ev)
  cases h with
  | working begun isOpen => exact begun.unanswered
  | ended begun ends gone =>
      exact ⟨hbehind _ _ begun.unanswered.1 (by simpa using ends.ne_write), begun.unanswered.2⟩
  | unwritten begun e testing closed =>
      exact ⟨hbehind _ _ begun.unanswered.1 (by simp), begun.unanswered.2⟩
  | tested begun e isOpen remote left =>
      exact ⟨hbehind _ _ begun.unanswered.1 (by simp), begun.unanswered.2⟩

/-- The events of a run are those of complete exchanges and of a part of one
more, and the state shows what these have done. -/
structure Explains (srv : ServerImpl) (continueRequired : Headers → Bool)
    (evs : List (SessionEvent Num)) (s : SessionState) (xs : List (Turn Num))
    (tail : List (SessionEvent Num)) (ws : List SessionWrite) (rs : List HttpRequest) : Prop where
  events : evs = xs.flatMap (Turn.events continueRequired) ++ tail
  answered : ∀ x ∈ xs, (srv.response x).isSome = true
  wire : s.wire = xs.flatMap (Turn.wire srv continueRequired) ++ ws
  routed : s.routed = xs.map (fun x => x.client.request) ++ rs
  place : SessionPlace srv continueRequired s tail ws rs

/-- A fiber that is gone makes no step. -/
theorem gone_step {s : SessionState} {ev : SessionEvent Num} (h : s.Gone) :
    sessionStep srv continueRequired s ev = none := by
  rcases h with hpc | hpc | hpc
  · cases ev <;> simp only [sessionStep, hpc]
  · cases ev <;> simp only [sessionStep, hpc]
  · cases ev <;> simp only [sessionStep, hpc]

/-- Behind a write that failed there is the loop test, which leaves the loop. -/
theorem closed_step {s t : SessionState} {ev : SessionEvent Num} (hpc : s.pc = .testing)
    (hclosed : s.isOpen = false) (hstep : sessionStep srv continueRequired s ev = some t) :
    (∃ isOpen remote, ev = .test isOpen remote) ∧ t = { s with pc := .left } := by
  cases ev <;> simp only [sessionStep, hpc, reduceCtorEq] at hstep
  rename_i isOpen remote
  simp only [hclosed, Bool.false_and, Bool.false_eq_true, if_false, Option.some.injEq] at hstep
  exact ⟨⟨isOpen, remote, rfl⟩, by rw [← hstep, ← hclosed]⟩

/-- **One event of a run.** -/
theorem explains_step {evs : List (SessionEvent Num)} {s t : SessionState} {ev : SessionEvent Num}
    {xs : List (Turn Num)} {tail : List (SessionEvent Num)} {ws : List SessionWrite}
    {rs : List HttpRequest} (h : Explains srv continueRequired evs s xs tail ws rs)
    (hstep : sessionStep srv continueRequired s ev = some t) :
    ∃ xs tail ws rs, Explains srv continueRequired (evs ++ [ev]) t xs tail ws rs := by
  obtain ⟨hevents, hanswered, hwire, hrouted, hplace⟩ := h
  have hevs : evs ++ [ev] = xs.flatMap (Turn.events continueRequired) ++ (tail ++ [ev]) := by
    rw [hevents, List.append_assoc]
  cases hplace with
  | working hbegun hopen =>
      cases begun_step hbegun hopen hstep with
      | goesOn more handed begun isOpen wire routed =>
          refine ⟨xs, tail ++ [ev], ws ++ more, rs ++ handed, hevs, hanswered, ?_, ?_,
            .working begun (isOpen.trans hopen)⟩
          · rw [wire, hwire, List.append_assoc]
          · rw [routed, hrouted, List.append_assoc]
      | completes x res events hres hws hrs ht =>
          subst ht
          refine ⟨xs ++ [x], [], [], [], ?_, ?_, ?_, ?_, .working .testing hopen⟩
          · rw [hevs, events]
            simp
          · intro y hy
            rcases List.mem_append.mp hy with hy | hy
            · exact hanswered y hy
            · rw [List.mem_singleton.mp hy, hres]
              rfl
          · have hx : x.wire srv continueRequired = ws ++ [.response res] := by
              unfold Turn.wire
              rw [hres, hws]
              rfl
            simp [hwire, hx]
          · simp [hrouted, hrs]
      | stops ends gone wire routed =>
          exact ⟨xs, tail ++ [ev], ws, rs, hevs, hanswered, wire.trans hwire, routed.trans hrouted,
            .ended hbegun ends gone⟩
      | unwritten res e hpc hev testing closed wire routed =>
          subst hev
          rw [hpc] at hbegun
          exact ⟨xs, _, ws, rs, hevs, hanswered, wire.trans hwire, routed.trans hrouted,
            .unwritten hbegun e testing closed⟩
  | ended begun ends gone =>
      rw [gone_step gone] at hstep
      cases hstep
  | unwritten begun e testing closed =>
      obtain ⟨⟨isOpen, remote, rfl⟩, rfl⟩ := closed_step testing closed hstep
      rw [List.append_assoc] at hevs
      exact ⟨xs, _, ws, rs, hevs, hanswered, hwire, hrouted, .tested begun e isOpen remote rfl⟩
  | tested begun e isOpen remote left =>
      rw [gone_step (.inl left)] at hstep
      cases hstep

theorem explains_run {evs : List (SessionEvent Num)} {s : SessionState}
    (hrun : (sessionMachine srv continueRequired).run evs = some s) :
    ∃ xs tail ws rs, Explains srv continueRequired evs s xs tail ws rs := by
  induction evs using List.reverseRecOn generalizing s with
  | nil =>
      obtain rfl := Option.some.inj hrun
      exact ⟨[], [], [], [], rfl, by simp, rfl, rfl, .working .testing rfl⟩
  | append_singleton evs ev ih =>
      rw [Machine.run_concat] at hrun
      obtain ⟨u, hu, hstep⟩ := Option.bind_eq_some_iff.mp hrun
      obtain ⟨xs, tail, ws, rs, h⟩ := ih hu
      exact explains_step h hstep

/-- The status and the body of a response. -/
def SentResponse.reply (res : SentResponse) : Int × Bytes := (res.status, res.body)

/-- A failed operation writes nothing and routes nothing, and the fiber leaves
the loop; a failed write leaves it at the loop test, with the socket closed. -/
theorem failed_step {s t : SessionState} {ev : SessionEvent Num} (hfailed : ev.Failed)
    (hstep : sessionStep srv continueRequired s ev = some t) :
    (t.pc = .left ∨ (∃ e, ev = .writeResponse (.error e)) ∧ t.pc = .testing ∧ t.isOpen = false) ∧
      t.wire = s.wire ∧ t.routed = s.routed := by
  cases ev with
  | route => exact hfailed.elim
  | handle env fuel => exact hfailed.elim
  | test isOpen r =>
      cases r with
      | ok remote => cases hfailed
      | error e =>
          simp only [sessionStep] at hstep
          split at hstep
          · split at hstep
            · obtain rfl := Option.some.inj hstep
              exact ⟨.inl rfl, rfl, rfl⟩
            · obtain rfl := Option.some.inj hstep
              exact ⟨.inl rfl, rfl, rfl⟩
          · cases hstep
  | writeResponse r =>
      cases r with
      | ok u => cases hfailed
      | error e =>
          simp only [sessionStep] at hstep
          split at hstep
          · obtain rfl := Option.some.inj hstep
            exact ⟨.inr ⟨⟨e, rfl⟩, rfl, rfl⟩, rfl, rfl⟩
          · cases hstep
  | readRequest r | writeContinue r | readSome r | readTrailers r =>
      cases r with
      | ok u => cases hfailed
      | error e =>
          simp only [sessionStep] at hstep
          split at hstep
          · obtain rfl := Option.some.inj hstep
            exact ⟨.inl rfl, rfl, rfl⟩
          · cases hstep

/-- A fiber that is gone has no events. -/
theorem gone_run {s t : SessionState} {evs : List (SessionEvent Num)} (h : s.Gone)
    (hrun : (sessionMachine srv continueRequired).runFrom s evs = some t) : evs = [] ∧ t = s := by
  cases evs with
  | nil => exact ⟨rfl, (Option.some.inj hrun).symm⟩
  | cons ev evs =>
      obtain ⟨u, hstep, -⟩ := Option.bind_eq_some_iff.mp hrun
      have hnone := (gone_step h).symm.trans hstep
      cases hnone

/-- The session at the loop test with a closed socket has at most this test. -/
theorem closed_run {s t : SessionState} {evs : List (SessionEvent Num)} (hpc : s.pc = .testing)
    (hclosed : s.isOpen = false)
    (hrun : (sessionMachine srv continueRequired).runFrom s evs = some t) :
    (evs = [] ∨ ∃ isOpen remote, evs = [.test isOpen remote]) ∧ t.wire = s.wire ∧
      t.routed = s.routed := by
  cases evs with
  | nil =>
      obtain rfl := Option.some.inj hrun
      exact ⟨.inl rfl, rfl, rfl⟩
  | cons ev evs =>
      obtain ⟨u, hstep, hrest⟩ := Option.bind_eq_some_iff.mp hrun
      obtain ⟨⟨isOpen, remote, rfl⟩, rfl⟩ := closed_step hpc hclosed hstep
      obtain ⟨rfl, rfl⟩ := gone_run (.inl rfl) hrest
      exact ⟨.inr ⟨isOpen, remote, rfl⟩, rfl, rfl⟩

/-- **A RUN IS A LIST OF EXCHANGES.**  The events of a session are complete turns
of its loop, one behind the other, and a part of one more; every turn has read a
whole request, handed it to its route and written the response the route left.
The part is that of the place the fiber is at, or an event has ended the session
in it; it has written what this place has written, and no response.  After an
error nothing more is read, routed or written: there is at most the loop test
behind a response that could not be written. -/
theorem session_run_exchanges {evs : List (SessionEvent Num)} {s : SessionState}
    (hrun : (sessionMachine srv continueRequired).run evs = some s) :
    (∃ (xs : List (Turn Num)) (tail : List (SessionEvent Num)) (ws : List SessionWrite)
        (rs : List HttpRequest), evs = xs.flatMap (Turn.events continueRequired) ++ tail ∧
      (∀ x ∈ xs, (srv.response x).isSome = true) ∧
      s.wire = xs.flatMap (Turn.wire srv continueRequired) ++ ws ∧
      s.routed = xs.map (fun x => x.client.request) ++ rs ∧
      SessionPlace srv continueRequired s tail ws rs ∧
      (∀ ev ∈ tail, ev ≠ .writeResponse (.ok ())) ∧ (ws = [] ∨ ws = [.continue])) ∧
    ∀ before ev after u, evs = before ++ ev :: after → ev.Failed →
      (sessionMachine srv continueRequired).run before = some u →
      (after = [] ∨ ∃ e isOpen remote,
        ev = .writeResponse (.error e) ∧ after = [.test isOpen remote]) ∧
      s.wire = u.wire ∧ s.routed = u.routed := by
  constructor
  · obtain ⟨xs, tail, ws, rs, h⟩ := explains_run hrun
    exact ⟨xs, tail, ws, rs, h.events, h.answered, h.wire, h.routed, h.place, h.place.unanswered⟩
  · rintro before ev after u rfl hfailed hu
    unfold Machine.run at hrun hu
    rw [Machine.runFrom_append, hu, Option.bind_some, Machine.runFrom_cons] at hrun
    obtain ⟨t, hstep, hrest⟩ := Option.bind_eq_some_iff.mp hrun
    obtain ⟨hpc, hwire, hrouted⟩ := failed_step hfailed hstep
    rcases hpc with hleft | ⟨⟨e, rfl⟩, htesting, hclosed⟩
    · obtain ⟨rfl, rfl⟩ := gone_run (.inl hleft) hrest
      exact ⟨.inl rfl, hwire, hrouted⟩
    · obtain ⟨hafter, hwire', hrouted'⟩ := closed_run htesting hclosed hrest
      refine ⟨hafter.imp_right ?_, hwire'.trans hwire, hrouted'.trans hrouted⟩
      rintro ⟨isOpen, remote, rfl⟩
      exact ⟨e, isOpen, remote, rfl, rfl⟩

/-- A request without a route, which comes in two pieces. -/
def lostRequest : Turn Int where
  client := ⟨([], true), bytes "POST", bytes "/", [], [.data (bytes "a"), .data (bytes "b")]⟩
  env := { engine := { getState := .ok {}, call := fun h _ _ => ⟨h, .returned []⟩ } }
  fuel := 0

/-- It is answered, and then the client goes away. -/
theorem lost_request_exchanges :
    let srv := ServerImpl.booted []
    let evs := lostRequest.events (fun _ => false) ++
      [.test true (.ok ([], true)), .readRequest (.error .eof)]
    ∃ s, (sessionMachine srv (fun _ => false)).run evs = some s ∧
      ((∃ (xs : List (Turn Int)) (tail : List (SessionEvent Int)) (ws : List SessionWrite)
          (rs : List HttpRequest), evs = xs.flatMap (Turn.events (fun _ => false)) ++ tail ∧
        (∀ x ∈ xs, (srv.response x).isSome = true) ∧
        s.wire = xs.flatMap (Turn.wire srv (fun _ => false)) ++ ws ∧
        s.routed = xs.map (fun x => x.client.request) ++ rs ∧
        SessionPlace srv (fun _ => false) s tail ws rs ∧
        (∀ ev ∈ tail, ev ≠ .writeResponse (.ok ())) ∧ (ws = [] ∨ ws = [.continue])) ∧
      ∀ before ev after u, evs = before ++ ev :: after → ev.Failed →
        (sessionMachine srv (fun _ => false)).run before = some u →
        (after = [] ∨ ∃ e isOpen remote,
          ev = .writeResponse (.error e) ∧ after = [.test isOpen remote]) ∧
        s.wire = u.wire ∧ s.routed = u.routed) := by
  intro srv evs
  have hrun : (sessionMachine srv (fun _ => false)).run evs =
      some { pc := .left, routed := [lostRequest.client.request],
             wire := [.response ⟨404, [(bytes "server", bytes "petrel")], []⟩] } := rfl
  exact ⟨_, hrun, session_run_exchanges hrun⟩

end Runs

end Petrel
