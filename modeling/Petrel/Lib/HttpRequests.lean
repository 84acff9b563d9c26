/-
  Petrel.Lib.HttpRequests — what the client's requests say.

  `get` and `post` write their lines by hand.  Read as an HTTP/1.1 message the
  lines are the request that was asked for, with the host and the body; but
  after `disable_keepalive` they ask to keep the connection instead of closing
  it.

  Main results:
    * `text_eq_encode`    — what is written is the encoding of a message.
    * `request_exact_iff` — the message is the one that was asked for as long
      as keep-alive is not disabled.
    * `disabled_keeps_alive` — and after that it is not.
-/

import Petrel.Framework.HttpMessage
import Petrel.Lib.HttpClient

namespace Petrel

open Framework

/-! ## §1. Requests. -/

/-- A call of `get` or `post`. -/
inductive ClientRequest where
  | get (path : Bytes)
  | post (path : Bytes) (data : Option Bytes)

namespace ClientRequest

def method : ClientRequest → Bytes
  | get _ => bytes "GET"
  | post _ _ => bytes "POST"

def path : ClientRequest → Bytes
  | get path | post path _ => path

def body : ClientRequest → Bytes
  | get _ => []
  | post _ data => data.getD []

/-- The bytes that the call appends to `m_req_buf`. -/
def text (c : HttpClient) : ClientRequest → Bytes
  | get path => c.getRequest path
  | post path data => c.postRequest path data

def send (c : HttpClient) (io : ExchangeIo) : ClientRequest → Option HttpClient.Call
  | get path => c.get path io
  | post path data => c.post path data io

/-- The fields that the call writes. -/
def fields (c : HttpClient) (r : ClientRequest) : List Field :=
  [(bytes "Host", c.host), (bytes "Accept", bytes "*/*"),
    (bytes "User-Agent", bytes "petrel/http_client")] ++
  (if !c.keepAlive then [(bytes "Connection", bytes "keep-alive")] else []) ++
  match r with
  | get _ => []
  | post _ data => [(bytes "Content-Length", bytes (toString (data.getD []).length))]

/-- The message that the call writes. -/
def message (c : HttpClient) (r : ClientRequest) : RequestMessage :=
  ⟨r.method, r.path, bytes "HTTP/1.1", r.fields c, r.body⟩

end ClientRequest

/-- Non-empty, without spaces and control characters. -/
def Plain (s : Bytes) : Prop := s ≠ [] ∧ ∀ c ∈ s, byte ' ' < c ∧ c ≠ 127

/-- A client object that has connected once, and whose `disable_keepalive` was
called before and after that. -/
def newClient (host : Bytes) (port : Option Bytes) (before after : Nat) : HttpClient :=
  HttpClient.disableKeepalive^[after]
    ((HttpClient.disableKeepalive^[before] {}).connect host port .ok).1

/-- What was written is one message, the one that was asked for, and it asks to
close the connection exactly if it should. -/
def RequestExact (written : Bytes) (r : ClientRequest) (host : Bytes) (close : Prop) : Prop :=
  ∃ m, decodeAll written = some [m] ∧ m.method = r.method ∧ m.target = r.path ∧
    fieldValues m.fields (octets "host") = [host] ∧ m.body = r.body ∧ (m.asksClose = true ↔ close)

/-! ## §2. What is written. -/

theorem disableKeepalive_iterate (c : HttpClient) (n : Nat) :
    HttpClient.disableKeepalive^[n] c = if n = 0 then c else c.disableKeepalive := by
  induction n with
  | zero => rfl
  | succ n ih =>
      rw [Function.iterate_succ_apply', ih, if_neg (Nat.succ_ne_zero n)]
      split <;> rfl

theorem newClient_eq (host : Bytes) (port : Option Bytes) (before after : Nat) :
    newClient host port before after =
      { host := cStr host, port := (port.map cStr).getD (bytes "80"), connected := true,
        socket := some [], keepAlive := decide (before + after = 0) } := by
  unfold newClient
  rw [disableKeepalive_iterate, disableKeepalive_iterate]
  by_cases hb : before = 0 <;> by_cases ha : after = 0 <;>
    simp [hb, ha, HttpClient.connect, HttpClient.disableKeepalive]

/-- A call on a connection writes its text. -/
theorem written_eq {c : HttpClient} (hconn : c.connected = true) (hbuf : c.reqBuf = [])
    (r : ClientRequest) {io : ExchangeIo} (hwrite : io.write = .ok) {call : HttpClient.Call}
    (h : r.send c io = some call) : call.written = r.text c := by
  have hexchange : c.exchange (r.text c) io = some call := by
    cases r <;> exact h
  rw [HttpClient.exchange_of_connected hconn] at hexchange
  by_cases hstray : c.reqBuf ≠ [] ∨ io.stray = []
  · rw [if_pos hstray] at hexchange
    unfold HttpClient.sendRecv at hexchange
    simp only [hwrite] at hexchange
    obtain ⟨inbound, _, hmap⟩ := Option.bind_eq_some_iff.mp hexchange
    obtain ⟨out, _, rfl⟩ := Option.map_eq_some_iff.mp hmap
    show c.reqBuf ++ r.text c = r.text c
    rw [hbuf, List.nil_append]
  · rw [if_neg hstray] at hexchange
    exact nomatch hexchange

/-- Plain strings are seen as such by the decoder. -/
theorem Plain.visible {s : Bytes} (h : Plain s) : s.all isVisible = true := by
  have hbyte : ∀ c : UInt8, byte ' ' < c → c ≠ 127 → isVisible c = true := by decide +kernel
  exact List.all_eq_true.mpr fun c hc => hbyte c (h.2 c hc).1 (h.2 c hc).2

/-- They are not cut at a NUL. -/
theorem Plain.cStr {s : Bytes} (h : Plain s) : cStr s = s :=
  (cStr_eq_self_iff s).mpr fun h0 => absurd (h.2 0 h0).1 (by decide)

theorem bytes_toString (n : Nat) :
    bytes (toString n) = (Nat.toDigits 10 n).map (fun c => c.toNat.toUInt8) := by
  show (String.ofList (Nat.toDigits 10 n)).toList.map _ = _
  rw [String.toList_ofList]

/-- The lines that both calls write. -/
theorem requestHead_eq (c : HttpClient) (method : Bytes) {path : Bytes} (hpath : Plain path) :
    c.requestHead method path = method ++ [32] ++ path ++ [32] ++ bytes "HTTP/1.1" ++ crlf ++
      ([(bytes "Host", c.host), (bytes "Accept", bytes "*/*"),
        (bytes "User-Agent", bytes "petrel/http_client")] ++
      (if !c.keepAlive then [(bytes "Connection", bytes "keep-alive")] else [])).flatMap encodeField := by
  have hversion : bytes " HTTP/1.1\r\n" = [32] ++ bytes "HTTP/1.1" ++ crlf := by decide
  have hhost : bytes "Host: " = bytes "Host" ++ [58, 32] := by decide
  have haccept : bytes "Accept: */*\r\n" = encodeField (bytes "Accept", bytes "*/*") := by decide
  have hagent : bytes "User-Agent: petrel/http_client\r\n" =
      encodeField (bytes "User-Agent", bytes "petrel/http_client") := by
    decide
  have hconnection : bytes "Connection: keep-alive\r\n" =
      encodeField (bytes "Connection", bytes "keep-alive") := by
    decide
  have hfield : encodeField (bytes "Host", c.host) = bytes "Host" ++ [58, 32] ++ c.host ++ crlf := rfl
  unfold HttpClient.requestHead
  rw [hpath.cStr, hversion, hhost, haccept, hagent, hconnection]
  cases c.keepAlive <;> simp [hfield, show bytes " " = [32] from rfl, show bytes "\r\n" = crlf from rfl]

/-- **What is written is the encoding of a message.** -/
theorem text_eq_encode (c : HttpClient) {r : ClientRequest} (hpath : Plain r.path) :
    r.text c = (r.message c).encode := by
  cases r with
  | get path =>
      show c.requestHead (bytes "GET") path ++ crlf = _
      rw [requestHead_eq c (bytes "GET") (show Plain path from hpath)]
      unfold RequestMessage.encode ClientRequest.message ClientRequest.fields
      simp only [ClientRequest.method, ClientRequest.path, ClientRequest.body, List.append_nil,
        List.append_assoc]
  | post path data =>
      have hlength : bytes "Content-Length: " = bytes "Content-Length" ++ [58, 32] := by decide
      have hend : bytes "\r\n\r\n" = crlf ++ crlf := by decide
      show c.requestHead (bytes "POST") path ++ bytes "Content-Length: " ++
        bytes (toString (data.getD []).length) ++ bytes "\r\n\r\n" ++ data.getD [] = _
      rw [requestHead_eq c (bytes "POST") (show Plain path from hpath), hlength, hend]
      unfold RequestMessage.encode ClientRequest.message ClientRequest.fields
      simp only [ClientRequest.method, ClientRequest.path, ClientRequest.body, List.flatMap_append,
        List.flatMap_cons, List.flatMap_nil, List.append_nil, List.append_assoc, encodeField]

/-! ## §3. The messages are well formed. -/

/-- The length of the body is stated where there is one. -/
theorem bodyLength_fields (c : HttpClient) (r : ClientRequest) :
    bodyLength (r.fields c) = some r.body.length := by
  have hdecimal := decimal_toDigits r.body.length
  rw [← bytes_toString] at hdecimal
  unfold ClientRequest.fields
  cases r with
  | get path => cases c.keepAlive <;> rfl
  | post path data =>
      have hvalues : ∀ k : Bool, bodyLength ([(bytes "Host", c.host), (bytes "Accept", bytes "*/*"),
          (bytes "User-Agent", bytes "petrel/http_client")] ++
          (if !k then [(bytes "Connection", bytes "keep-alive")] else []) ++
          [(bytes "Content-Length", bytes (toString (data.getD []).length))]) =
          decimalValue (bytes (toString (data.getD []).length)) := by
        intro k
        cases k <;> rfl
      exact (hvalues c.keepAlive).trans hdecimal

/-- A visible value stands for itself. -/
theorem wellFormed_visible {name value : Bytes} (hname : name ≠ [] ∧ name.all isTchar = true)
    (hvalue : value.all isVisible = true) : Field.WellFormed (name, value) where
  named := hname.1
  name := hname.2
  value := List.all_eq_true.mpr fun c hc => (visible_facts c (List.all_eq_true.mp hvalue c hc)).2.2.2
  trimmed := trimOws_visible hvalue

/-- **The message of a call is well formed.** -/
theorem message_wellFormed (c : HttpClient) {r : ClientRequest} (hhost : Plain c.host)
    (hpath : Plain r.path) : (r.message c).WellFormed where
  methodNamed := by cases r <;> exact List.cons_ne_nil _ _
  method := by
    cases r with
    | get path => exact show (bytes "GET").all isTchar = true by decide
    | post path data => exact show (bytes "POST").all isTchar = true by decide
  targetNamed := hpath.1
  target := hpath.visible
  version := by
    show isVersion (bytes "HTTP/1.1") = true
    decide
  fields := by
    intro f hf
    rcases List.mem_append.mp hf with hf | hf
    · rcases List.mem_append.mp hf with hf | hf
      · simp only [List.mem_cons, List.not_mem_nil, or_false] at hf
        rcases hf with rfl | rfl | rfl
        · exact wellFormed_visible (by decide) hhost.visible
        · exact wellFormed_visible (by decide) (by decide)
        · exact wellFormed_visible (by decide) (by decide)
      · have hconnection : f = (bytes "Connection", bytes "keep-alive") := by
          by_cases hk : (!c.keepAlive) = true
          · rw [if_pos hk] at hf
            exact List.mem_singleton.mp hf
          · rw [if_neg hk] at hf
            exact absurd hf List.not_mem_nil
        rw [hconnection]
        exact wellFormed_visible (by decide) (by decide)
    · cases r with
      | get path => exact absurd hf List.not_mem_nil
      | post path data =>
          rw [List.mem_singleton.mp hf]
          refine wellFormed_visible (by decide) ?_
          -- the length is written with digits
          have hdecimal := decimal_toDigits (data.getD []).length
          rw [← bytes_toString] at hdecimal
          exact decimalValue_visible hdecimal
  length := bodyLength_fields c r

/-! ## §4. The requests. -/

/-- **What the calls write reads as the request**, and never asks to close the
connection. -/
theorem text_decodes (c : HttpClient) {r : ClientRequest} (hhost : Plain c.host) (hpath : Plain r.path) :
    decodeAll (r.text c) = some [r.message c] ∧
      fieldValues (r.message c).fields (octets "host") = [c.host] ∧
      (r.message c).asksClose = false := by
  refine ⟨?_, ?_, ?_⟩
  · have hdecode := decodeAll_encode [r.message c] (by
      intro m hm
      rw [List.mem_singleton.mp hm]
      exact message_wellFormed c hhost hpath)
    rw [List.flatMap_singleton] at hdecode
    rw [text_eq_encode c hpath]
    exact hdecode
  · show fieldValues (r.fields c) (octets "host") = [c.host]
    unfold ClientRequest.fields
    cases r <;> cases c.keepAlive <;> rfl
  · show RequestMessage.asksClose ⟨_, _, _, r.fields c, _⟩ = false
    unfold ClientRequest.fields
    cases r <;> cases c.keepAlive <;> rfl

/-- **A REQUEST DECODES TO WHAT WAS ASKED**, with the method, the target, the
host and the body, and asks to close the connection exactly if keep-alive was
disabled, if and only if keep-alive was not disabled. -/
theorem request_exact_iff {host : Bytes} (hhost : Plain host) (port : Option Bytes)
    {r : ClientRequest} (hpath : Plain r.path) (before after : Nat) :
    (∀ io call, io.write = .ok → r.send (newClient host port before after) io = some call →
        RequestExact call.written r host (0 < before + after)) ↔ before + after = 0 := by
  have hclient := newClient_eq host port before after
  have hconn : (newClient host port before after).connected = true := by rw [hclient]
  have hbuf : (newClient host port before after).reqBuf = [] := by rw [hclient]
  have hname : (newClient host port before after).host = host := by
    rw [hclient]
    exact hhost.cStr
  obtain ⟨hdecode, hvalues, hclose⟩ :=
    text_decodes (newClient host port before after) (hname.symm ▸ hhost) hpath
  constructor
  · intro hall
    -- a call whose response does not come
    let io : ExchangeIo := { write := .ok, response := none, reads := [.eof] }
    obtain ⟨call, hcall⟩ : ∃ call, r.send (newClient host port before after) io = some call := by
      rw [hclient]
      cases r <;> exact ⟨_, rfl⟩
    obtain ⟨m, hm, -, -, -, -, hasks⟩ := hall io call rfl hcall
    rw [written_eq hconn hbuf r rfl hcall, hdecode] at hm
    obtain rfl := (List.cons.inj (Option.some.inj hm)).1
    by_contra hne
    rw [hasks.mpr (Nat.pos_of_ne_zero hne)] at hclose
    exact nomatch hclose
  · intro hzero io call hwrite hcall
    refine ⟨r.message (newClient host port before after), ?_, rfl, rfl,
      hvalues.trans (congrArg (fun h => [h]) hname), rfl, ?_⟩
    · rw [written_eq hconn hbuf r hwrite hcall]
      exact hdecode
    · rw [hclose]
      exact iff_of_false Bool.false_ne_true (by omega)

/-- A post of a body with any bytes, with keep-alive. -/
theorem request_exact_iff_post :
    let io : ExchangeIo := { write := .ok, response := none, reads := [.eof] }
    ∃ call, (ClientRequest.post (bytes "/a?b") (some [0, 13, 10, 255])).send
        (newClient (bytes "localhost") none 0 0) io = some call ∧
      RequestExact call.written (.post (bytes "/a?b") (some [0, 13, 10, 255])) (bytes "localhost")
        (0 < 0 + 0) := by
  intro io
  refine ⟨_, rfl, ?_⟩
  exact (request_exact_iff (by unfold Plain; decide +kernel) none (by unfold Plain; decide +kernel)
    0 0).mpr rfl io _ rfl rfl

/-- **After `disable_keepalive` the client asks to keep the connection.** -/
theorem disabled_keeps_alive :
    (ClientRequest.get (bytes "/")).text (newClient (bytes "localhost") none 0 1) =
      bytes ("GET / HTTP/1.1\r\nHost: localhost\r\nAccept: */*\r\n" ++
        "User-Agent: petrel/http_client\r\nConnection: keep-alive\r\n\r\n") ∧
    ¬ RequestExact ((ClientRequest.get (bytes "/")).text (newClient (bytes "localhost") none 0 1))
      (.get (bytes "/")) (bytes "localhost") (0 < 0 + 1) := by
  refine ⟨by decide +kernel, ?_⟩
  rintro ⟨m, hm, -, -, -, -, hasks⟩
  obtain ⟨hdecode, -, hclose⟩ := text_decodes (newClient (bytes "localhost") none 0 1)
    (r := .get (bytes "/")) (by unfold Plain; decide +kernel) (by unfold Plain; decide +kernel)
  rw [hdecode] at hm
  obtain rfl := (List.cons.inj (Option.some.inj hm)).1
  rw [hasks.mpr (by decide)] at hclose
  exact nomatch hclose

end Petrel
