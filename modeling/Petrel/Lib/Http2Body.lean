/-
  Petrel.Lib.Http2Body — the body that the HTTP/2 client returns.

  The callback for data appends every chunk to a string stream, whatever its
  bytes are, so the stream holds what has been delivered.  `get` hands it to
  Lua with `lua_pushstring(L, content_strm.str().c_str())`, which reads up to
  the first NUL.  `http_client` pushes its buffer with its length.

  Main results:
    * `content_during` — the content of a `get` that waits is what has been
      delivered to it.
    * `get_returned` — what is returned is cut at the first NUL.
    * `http_get_body` — the other client returns the body as it is.
    * `http2_body_exact_iff` — exactly when the two agree.
-/

import Petrel.Lib.Http2Client
import Petrel.Lib.HttpClient

namespace Petrel

open Framework

/-! ## §1. What is delivered to a call. -/

/-- The steps that the library takes while a fiber waits. -/
def Http2Action.OfLibrary : Http2Action → Prop
  | .onConnect _ | .onError _ _ | .onResponse _ _ _ | .onData _ _ _ | .onClose _ _ | .dropped _ => True
  | .connect _ _ _ | .disconnect | .get _ _ | .resume | .delete => False

/-- The bytes that the step delivers to the call. -/
def Http2Action.chunkFor (c : Nat) : Http2Action → Bytes
  | .onData _ d data => if d = c then data else []
  | _ => []

/-- All that is delivered to the call, one chunk behind the other. -/
def deliveredTo (c : Nat) (as : List Http2Action) : Bytes := as.flatMap (Http2Action.chunkFor c)

variable {s t u : Http2Client} {c : Nat}

/-! ## §2. The content of a `get` that waits. -/

/-- A chunk for the call is appended, and one for another call is not. -/
theorem content_onData (hpc : s.pc = .waiting c .get) (d : Nat) (data : Bytes) :
    (s.onData d data).pc = .waiting c .get ∧
      (s.onData d data).content = s.content ++ if d = c then data else [] := by
  unfold Http2Client.onData
  by_cases hdata : data = []
  · -- the end of the data
    rw [if_pos hdata, hdata, ite_self, List.append_nil]
    exact ⟨hpc, rfl⟩
  · rw [if_neg hdata]
    by_cases hd : d = c
    · subst hd
      rw [if_pos hpc, if_pos rfl]
      exact ⟨hpc, rfl⟩
    · have hother : ¬ s.pc = .waiting d .get := by
        intro hwait
        exact hd (Http2Pc.waiting.inj (hwait.symm.trans hpc)).1
      rw [if_neg hother, if_neg hd, List.append_nil]
      exact ⟨hpc, rfl⟩

/-- One step of the library. -/
theorem content_act {a : Http2Action} (ha : a.OfLibrary) (hpc : s.pc = .waiting c .get)
    (hstep : s.act a = some t) :
    t.pc = .waiting c .get ∧ t.content = s.content ++ a.chunkFor c := by
  cases a with
  | connect host port tls => exact ha.elim
  | disconnect => exact ha.elim
  | get path submitted => exact ha.elim
  | resume => exact ha.elim
  | delete => exact ha.elim
  | onConnect i =>
      obtain rfl := Option.some.inj hstep
      obtain ⟨sets, hframe⟩ := setValue_frame s (s.sessions i).onConnect none
      rw [hframe]
      exact ⟨hpc, (List.append_nil _).symm⟩
  | onError i ec =>
      obtain rfl := Option.some.inj hstep
      obtain ⟨sets, hframe⟩ := setValue_frame s (s.sessions i).onError ec
      rw [hframe]
      exact ⟨hpc, (List.append_nil _).symm⟩
  | onResponse i d status =>
      obtain ⟨-, ht⟩ := Option.ite_none_right_eq_some.mp hstep
      obtain rfl := Option.some.inj ht
      exact ⟨hpc, (List.append_nil _).symm⟩
  | onData i d data =>
      obtain ⟨-, ht⟩ := Option.ite_none_right_eq_some.mp hstep
      obtain rfl := Option.some.inj ht
      exact content_onData hpc d data
  | onClose i d =>
      obtain rfl := Option.some.inj hstep
      exact ⟨hpc, (List.append_nil _).symm⟩
  | dropped i =>
      obtain ⟨-, ht⟩ := Option.ite_none_right_eq_some.mp hstep
      obtain rfl := Option.some.inj ht
      exact ⟨hpc, (List.append_nil _).symm⟩

/-- **The content of a `get` that waits is what has been delivered to it.** -/
theorem content_during {during : List Http2Action} (hduring : ∀ a ∈ during, a.OfLibrary)
    (hpc : s.pc = .waiting c .get) (hrun : http2Machine.runFrom s during = some t) :
    t.pc = .waiting c .get ∧ t.content = s.content ++ deliveredTo c during := by
  induction during generalizing s with
  | nil =>
      obtain rfl := Option.some.inj hrun
      exact ⟨hpc, (List.append_nil _).symm⟩
  | cons a during ih =>
      obtain ⟨u, hu, hrest⟩ := Option.bind_eq_some_iff.mp hrun
      obtain ⟨hupc, hucontent⟩ :=
        content_act (hduring a (List.mem_cons_self ..)) hpc (http2Step_act hu)
      obtain ⟨htpc, htcontent⟩ := ih (fun b hb => hduring b (List.mem_cons_of_mem a hb)) hupc hrest
      refine ⟨htpc, ?_⟩
      rw [htcontent, hucontent, List.append_assoc]
      rfl

/-- A `get` begins with no content. -/
theorem content_get {path : Bytes} {submitted : Bool}
    (hstep : s.act (.get path submitted) = some t) (hpc : t.pc = .waiting c .get) :
    t.content = [] := by
  obtain ⟨hidle, ht⟩ := Option.ite_none_right_eq_some.mp hstep
  obtain rfl := Option.some.inj ht
  obtain ⟨-, -, hcontent, -⟩ := get_waiting hidle hpc
  exact hcontent

/-- What `get` returns, if it succeeds. -/
theorem get_returned (hpc : s.pc = .waiting c .get) (hstep : s.act .resume = some t) {status : Int}
    {body : Bytes} (hresult : t.result = .ok (some (status, body))) : body = cStr s.content := by
  unfold Http2Client.act at hstep
  rw [hpc] at hstep
  obtain ⟨ec, -, rfl⟩ := Option.map_eq_some_iff.mp hstep
  cases ec with
  | some msg => cases hresult
  | none =>
      obtain ⟨sessions, hremove, -⟩ := removeErrorHandler_frame s
      unfold Http2Client.goOn at hresult
      rw [hremove] at hresult
      exact (Prod.mk.inj (Option.some.inj (Except.ok.inj hresult))).2.symm

/-- **The second result of `get`** is what has been delivered, up to the first
NUL. -/
theorem get_body_eq {before during : List Http2Action} {path : Bytes} {submitted : Bool}
    (hget : http2Machine.run (before ++ [.get path submitted]) = some s)
    (hpc : s.pc = .waiting c .get) (hduring : ∀ a ∈ during, a.OfLibrary)
    (hrun : http2Machine.runFrom s (during ++ [.resume]) = some t) {status : Int} {body : Bytes}
    (hresult : t.result = .ok (some (status, body))) : body = cStr (deliveredTo c during) := by
  rw [Machine.run_concat] at hget
  obtain ⟨s₀, -, hs⟩ := Option.bind_eq_some_iff.mp hget
  rw [Machine.runFrom_append] at hrun
  obtain ⟨u, hu, hlast⟩ := Option.bind_eq_some_iff.mp hrun
  obtain ⟨t', hresume, ht⟩ := Option.bind_eq_some_iff.mp hlast
  obtain rfl := Option.some.inj ht
  obtain ⟨hupc, hucontent⟩ := content_during hduring hpc hu
  rw [content_get (http2Step_act hs) hpc, List.nil_append] at hucontent
  rw [get_returned hupc (http2Step_act hresume) hresult, hucontent]

/-! ## §3. The other client. -/

/-- `http_client::get`, with nothing left over from before, returns the body of
a response whose length it can tell, whatever its bytes are. -/
theorem http_get_body {client : HttpClient} {io : ExchangeIo} (hconn : client.connected = true)
    (hclean : client.Clean io) {r : HttpResponse} (hresponse : io.response = some r)
    (hr : r.Readable) (h302 : r.code.value ≠ 302) {path : Bytes} {call : HttpClient.Call}
    (hget : client.get path io = some call) {status : Int} {body : Bytes}
    (hresult : call.result = .ok (status, body)) : body = r.body := by
  have hreadable : io.Readable := by
    intro _ r' hr'
    rw [hresponse] at hr'
    obtain rfl := Option.some.inj hr'
    exact ⟨h302, hr⟩
  unfold HttpClient.get at hget
  rw [HttpClient.exchange_of_connected hconn] at hget
  obtain ⟨hstray, hsend⟩ := Option.ite_none_right_eq_some.mp hget
  rcases sendRecv_clean hclean hreadable hstray hsend with ⟨-, -, -, hok⟩ | ⟨n, msg, -, -, herror, -⟩
  · obtain ⟨r', hr', hanswer, -⟩ := hok _ hresult
    rw [hresponse] at hr'
    obtain rfl := Option.some.inj hr'
    exact (Prod.mk.inj hanswer).2
  · cases hresult.symm.trans herror

/-- The body is what `http_client::get` returns for the same content with a
matching content length. -/
def AsHttpClient (content body : Bytes) : Prop :=
  ∀ (client : HttpClient) (io : ExchangeIo) (r : HttpResponse) (path : Bytes)
    (call : HttpClient.Call) (status : Int) (body' : Bytes),
    client.connected = true → client.Clean io → io.response = some r → r.Readable →
    r.code.value ≠ 302 → r.body = content → client.get path io = some call →
    call.result = .ok (status, body') → body = body'

/-- **THE BODY IS UNCHANGED, EXACTLY IF** it has no NUL byte.  A `get` that has
waited and succeeds returns what has been delivered to it, as `http_client` does
with the same body. -/
theorem http2_body_exact_iff {before during : List Http2Action} {path : Bytes} {submitted : Bool}
    (hget : http2Machine.run (before ++ [.get path submitted]) = some s)
    (hpc : s.pc = .waiting c .get) (hduring : ∀ a ∈ during, a.OfLibrary)
    (hrun : http2Machine.runFrom s (during ++ [.resume]) = some t) {status : Int} {body : Bytes}
    (hresult : t.result = .ok (some (status, body))) :
    (body = deliveredTo c during ∧ AsHttpClient (deliveredTo c during) body) ↔
      (0 : UInt8) ∉ deliveredTo c during := by
  have hbody := get_body_eq hget hpc hduring hrun hresult
  rw [← cStr_eq_self_iff, hbody]
  constructor
  · intro h
    exact h.1
  · intro h
    refine ⟨h, ?_⟩
    intro client io r path call status body' hconn hclean hresponse hr h302 hcontent hcall hbody'
    rw [h, ← hcontent]
    exact (http_get_body hconn hclean hresponse hr h302 hcall hbody').symm

/-- A `get` behind a successful `connect`, and a response in two chunks. -/
def getSubmitted : List Http2Action := connectSteps ++ [.get (bytes "/") true]

def chunked (first second : Bytes) : List Http2Action :=
  [.onResponse 0 1 200, .onData 0 1 first, .onData 0 1 second, .onData 0 1 []]

theorem chunked_ofLibrary (first second : Bytes) : ∀ a ∈ chunked first second, a.OfLibrary := by
  simp [chunked, Http2Action.OfLibrary]

/-- A run from `getSubmitted` to the end of the call, with its result. -/
theorem exists_get_run (during : List Http2Action) (status : Int) (body : Bytes)
    (h : (http2Machine.run (getSubmitted ++ (during ++ [.resume]))).map (fun t => t.result.toOption) =
      some (some (some (status, body)))) :
    ∃ s t, http2Machine.run getSubmitted = some s ∧ s.pc = .waiting 1 .get ∧
      http2Machine.runFrom s (during ++ [.resume]) = some t ∧
      t.result = .ok (some (status, body)) := by
  have hwait : (http2Machine.run getSubmitted).map Http2Client.pc = some (.waiting 1 .get) := by
    decide +kernel
  obtain ⟨s, hs, hpc⟩ := Option.map_eq_some_iff.mp hwait
  obtain ⟨t, ht, hoption⟩ := Option.map_eq_some_iff.mp h
  unfold Machine.run at hs ht
  rw [Machine.runFrom_append, hs, Option.bind_some] at ht
  exact ⟨s, t, hs, hpc, ht, ok_of_toOption hoption⟩

/-- A body without NUL bytes in two chunks. -/
theorem http2_body_exact_iff_text :
    ∃ s t, http2Machine.run getSubmitted = some s ∧
      http2Machine.runFrom s (chunked (bytes "pet") (bytes "rel") ++ [.resume]) = some t ∧
      ∃ body, t.result = .ok (some (200, body)) ∧ body = bytes "petrel" := by
  obtain ⟨s, t, hs, hpc, ht, hresult⟩ := exists_get_run (chunked (bytes "pet") (bytes "rel")) 200
    (bytes "petrel") (by decide +kernel)
  refine ⟨s, t, hs, ht, _, hresult, ?_⟩
  have hexact := http2_body_exact_iff hs hpc (chunked_ofLibrary _ _) ht hresult
  exact (hexact.mpr (by decide +kernel)).1

/-- A response to `http_client` with the body that the counterexample uses. -/
def binaryResponse : HttpResponse :=
  plainResponse ⟨bytes "3", by decide, by decide +kernel⟩ [97, 0, 98] (by decide +kernel)

/-- **A BINARY BODY IS CUT.**  Of the three bytes `a`, NUL and `b` the HTTP/2
client returns the first one.  `http_client` returns all three. -/
theorem binary_body_is_cut :
    (http2Machine.run (getSubmitted ++ (chunked [97, 0] [98] ++ [.resume]))).map
        (fun t => t.result.toOption) = some (some (some (200, bytes "a"))) ∧
    (clientMachine.run [.connect (bytes "localhost") none .ok, plainGet "/" binaryResponse]).map
        (fun s => s.log.map (fun e => e.result.toOption)) = some [some (200, [97, 0, 98])] ∧
    ¬ ∀ (before during : List Http2Action) (path : Bytes) (submitted : Bool) (s t : Http2Client)
        (c : Nat) (status : Int) (body : Bytes),
        http2Machine.run (before ++ [.get path submitted]) = some s → s.pc = .waiting c .get →
        (∀ a ∈ during, a.OfLibrary) → http2Machine.runFrom s (during ++ [.resume]) = some t →
        t.result = .ok (some (status, body)) → body = deliveredTo c during := by
  have hcut : (http2Machine.run (getSubmitted ++ (chunked [97, 0] [98] ++ [.resume]))).map
      (fun t => t.result.toOption) = some (some (some (200, bytes "a"))) := by
    decide +kernel
  refine ⟨hcut, by decide +kernel, ?_⟩
  intro hall
  obtain ⟨s, t, hs, hpc, ht, hresult⟩ := exists_get_run _ _ _ hcut
  have hsame := hall _ _ _ _ s t 1 200 _ hs hpc (chunked_ofLibrary _ _) ht hresult
  exact absurd hsame (by decide +kernel)

end Petrel
