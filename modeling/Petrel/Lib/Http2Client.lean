/-
  Petrel.Lib.Http2Client — the promises of the HTTP/2 client.

  `connect` and `get` make a promise on their stack, install callbacks that
  refer to it, and wait for it.  The callbacks are with the session: one for
  the connect, one for errors, and those of every stream.  The library calls
  them when it likes, also between the event that has satisfied a promise and
  the moment the fiber goes on, and after the call is over.  What a call takes
  away is the error callback, and only if it succeeds.

  A session goes on for some time when the client has replaced or dropped it,
  as its pending operations hold it.

  Main results:
    * `act_effect` — what one step does to promises, callbacks and calls.
    * `http2Inv_act` — what is installed for the call that waits.
    * `promises_used_well_iff` — for every call of every run, exactly when its
      promise is set once at most and nothing refers to it behind its end.
-/

import Petrel.Core.Bytes
import Petrel.Framework.Machine

namespace Petrel

open Framework

/-! ## §1. Sessions and calls. -/

/-- The callbacks of a submitted request.  They refer to the promise, the
status and the content of the call; the one for data is installed by the one
for the response. -/
structure SubmittedStream where
  call : Nat
  url : Bytes
  responded : Bool := false
  deriving DecidableEq

/-- A session.  A callback is the call whose promise it refers to, or none
where it is empty. -/
structure Http2Session where
  onConnect : Option Nat := none
  onError : Option Nat := none
  streams : List SubmittedStream := []

/-- A callback that is installed on the session refers to objects of the call. -/
def Http2Session.Refers (ses : Http2Session) (c : Nat) : Prop :=
  ses.onConnect = some c ∨ ses.onError = some c ∨ ∃ st ∈ ses.streams, st.call = c

/-- The callback for data of a call is installed. -/
def Http2Session.takesData (ses : Http2Session) (c : Nat) : Bool :=
  ses.streams.any (fun st => st.call == c && st.responded)

/-- The methods that make a promise. -/
inductive Http2Method where
  | connect
  | get
  deriving DecidableEq

/-- Where the fiber of the client is. -/
inductive Http2Pc where
  | idle
  | waiting (call : Nat) (method : Http2Method)   -- in `future.get()`
  | deleted                                       -- the object is gone
  | crashed                                       -- a null pointer was dereferenced
  deriving DecidableEq

/-- An error code: none, or the message of the error. -/
abbrev Http2Error := Option Bytes

/-- A client object and all sessions that it has made.  The calls that have
made a promise are numbered; `sets` lists the calls of `set_value`, the first
one in front, and `result` is what the last method has left for Lua. -/
structure Http2Client where
  pc : Http2Pc := .idle
  calls : Nat := 0
  sessions : Nat → Http2Session := fun _ => {}
  opened : Nat := 0
  session : Option Nat := none       -- `m_session`
  host : Bytes := []
  port : Bytes := []
  connected : Bool := false
  status : Option Int := none        -- the locals of the last `get`
  content : Bytes := []
  sets : List (Nat × Http2Error) := []
  ended : List Nat := []
  result : Except Bytes (Option (Int × Bytes)) := .ok none

namespace Http2Client

/-- How often the promise of a call has been set. -/
def setCount (s : Http2Client) (c : Nat) : Nat := s.sets.countP (fun e => e.1 = c)

/-- The value of the promise: the first one it was set to. -/
def value (s : Http2Client) (c : Nat) : Option Http2Error :=
  (s.sets.find? (fun e => e.1 = c)).map Prod.snd

def updateSession (s : Http2Client) (i : Nat) (f : Http2Session → Http2Session) : Http2Client :=
  { s with sessions := Function.update s.sessions i (f (s.sessions i)) }

/-! ## §2. The methods. -/

/-- `connect` up to `future.get()`.  `tls` is the error of
`configure_tls_context`, which leaves before there is a promise. -/
def connect (s : Http2Client) (host : Bytes) (port : Option Bytes) (tls : Http2Error) : Http2Client :=
  let s := { s with host := cStr host, port := (port.map cStr).getD (bytes "80") }
  match tls with
  | some msg => { s with result := .error (bytes "configure_tls_context failed: " ++ cStr msg) }
  | none =>
      { s with
        pc := .waiting s.calls .connect
        calls := s.calls + 1
        sessions := Function.update s.sessions s.opened
          { onConnect := some s.calls, onError := some s.calls }
        opened := s.opened + 1
        session := some s.opened }

/-- `close`: the session object is dropped. -/
def disconnect (s : Http2Client) : Http2Client :=
  if s.connected then { s with session := none, connected := false } else s

def url (s : Http2Client) (path : Bytes) : Bytes :=
  bytes "http://" ++ s.host ++ bytes ":" ++ s.port ++ cStr path

/-- `get` in front of `submit`: a promise, and the error callback for it. -/
def submitting (s : Http2Client) (i : Nat) : Http2Client :=
  updateSession { s with calls := s.calls + 1, status := none, content := [] } i
    (fun ses => { ses with onError := some s.calls })

/-- `get` up to `future.get()`.  A request that `submit` does not take is a
null pointer, and the callback is installed through it. -/
def get (s : Http2Client) (path : Bytes) (submitted : Bool) : Http2Client :=
  if !s.connected then { s with result := .error (bytes "not connected") }
  else
    match s.session with
    | none => { s with pc := .crashed }
    | some i =>
        if submitted then
          { (s.submitting i).updateSession i (fun ses =>
              { ses with streams := ses.streams ++ [⟨s.calls, s.url path, false⟩] })
            with pc := .waiting s.calls .get }
        else { s.submitting i with pc := .crashed }

/-- `m_session->on_error([](const bs::error_code&) {})`. -/
def removeErrorHandler (s : Http2Client) : Http2Client :=
  match s.session with
  | none => s
  | some i => s.updateSession i (fun ses => { ses with onError := none })

/-- What a method does behind `future.get()`. -/
def goOn (s : Http2Client) (c : Nat) (method : Http2Method) : Http2Error → Http2Client
  | some msg =>
      let failed := match method with
        | .connect => bytes "connect failed: "
        | .get => bytes "get failed: "
      -- an error leaves all callbacks where they are
      { s with pc := .idle, ended := c :: s.ended, result := .error (failed ++ cStr msg) }
  | none =>
      let s := { s.removeErrorHandler with pc := .idle, ended := c :: s.ended }
      match method with
      | .connect => { s with connected := true, result := .ok none }
      | .get => { s with result := .ok (some (s.status.getD 0, cStr s.content)) }

/-! ## §3. The callbacks. -/

/-- A callback sets the promise it refers to. -/
def setValue (s : Http2Client) (callback : Option Nat) (ec : Http2Error) : Http2Client :=
  match callback with
  | none => s
  | some c => { s with sets := s.sets ++ [(c, ec)] }

/-- The callback for the response of a call.  The locals of a call that is
over are gone. -/
def onResponse (s : Http2Client) (i c : Nat) (status : Int) : Http2Client :=
  { s.updateSession i (fun ses => { ses with
      streams := ses.streams.map (fun st => if st.call = c then { st with responded := true } else st) })
    with status := if s.pc = .waiting c .get then some status else s.status }

/-- The callback for data: an empty chunk is the end of the data. -/
def onData (s : Http2Client) (c : Nat) (data : Bytes) : Http2Client :=
  if data = [] then s.setValue (some c) none
  else if s.pc = .waiting c .get then { s with content := s.content ++ data }
  else s

/-- The stream of a call is closed, and its callbacks with it. -/
def onClose (s : Http2Client) (i c : Nat) : Http2Client :=
  s.updateSession i (fun ses => { ses with streams := ses.streams.filter (fun st => st.call ≠ c) })

end Http2Client

/-- What can happen next: Lua calls a method, the fiber goes on, the library
calls a callback of one of the sessions, a session that the client has dropped
is over, or the object is deleted. -/
inductive Http2Action where
  | connect (host : Bytes) (port : Option Bytes) (tls : Http2Error)
  | disconnect
  | get (path : Bytes) (submitted : Bool)
  | resume
  | onConnect (i : Nat)
  | onError (i : Nat) (ec : Http2Error)
  | onResponse (i c : Nat) (status : Int)
  | onData (i c : Nat) (data : Bytes)
  | onClose (i c : Nat)
  | dropped (i : Nat)
  | delete

/-- The step of a process that has not crashed. -/
def Http2Client.act (s : Http2Client) : Http2Action → Option Http2Client
  | .connect host port tls => if s.pc = .idle then some (s.connect host port tls) else none
  | .disconnect => if s.pc = .idle then some s.disconnect else none
  | .get path submitted => if s.pc = .idle then some (s.get path submitted) else none
  | .resume =>
      match s.pc with
      | .waiting c method => (s.value c).map (s.goOn c method)
      | _ => none
  | .onConnect i => some (s.setValue (s.sessions i).onConnect none)
  | .onError i ec => some (s.setValue (s.sessions i).onError ec)
  | .onResponse i c status =>
      if ∃ st ∈ (s.sessions i).streams, st.call = c then some (s.onResponse i c status) else none
  | .onData i c data => if (s.sessions i).takesData c then some (s.onData c data) else none
  | .onClose i c => some (s.onClose i c)
  | .dropped i => if s.session ≠ some i then some (s.updateSession i (fun _ => {})) else none
  | .delete => if s.pc = .idle then some { s with pc := .deleted, session := none } else none

def http2Step (s : Http2Client) (a : Http2Action) : Option Http2Client :=
  if s.pc = .crashed then none else s.act a

/-- A new client object. -/
def http2Machine : Machine Http2Client Http2Action where
  init := {}
  step := http2Step

/-! ## §4. What one step does. -/

variable {s t : Http2Client} {a : Http2Action} {c : Nat}

/-- The call whose promise the step sets. -/
def Http2Client.target (s : Http2Client) : Http2Action → Option Nat
  | .onConnect i => (s.sessions i).onConnect
  | .onError i _ => (s.sessions i).onError
  | .onData _ c data => if data = [] then some c else none
  | _ => none

/-- The step ends the call. -/
def Http2Client.EndsCall (s : Http2Client) (a : Http2Action) (c : Nat) : Prop :=
  a = .resume ∧ ∃ method, s.pc = .waiting c method

/-- What a step does: one promise is set at most, the call that waits may end,
and no callback is installed but for a new call. -/
structure StepEffect (s t : Http2Client) (a : Http2Action) : Prop where
  sets : ∀ c, t.setCount c = s.setCount c + if s.target a = some c then 1 else 0
  ended : ∀ c, c ∈ t.ended ↔ c ∈ s.ended ∨ s.EndsCall a c
  calls : s.calls ≤ t.calls
  refers : ∀ i c, (t.sessions i).Refers c →
    (∃ j, (s.sessions j).Refers c) ∨ (c = s.calls ∧ s.calls < t.calls)

theorem setCount_setValue (s : Http2Client) (callback : Option Nat) (ec : Http2Error) (c : Nat) :
    (s.setValue callback ec).setCount c = s.setCount c + if callback = some c then 1 else 0 := by
  cases callback with
  | none => rfl
  | some d =>
      show (s.sets ++ [(d, ec)]).countP (fun e => e.1 = c) = _
      rw [List.countP_append, List.countP_singleton]
      by_cases h : d = c
      · simp [h, Http2Client.setCount]
      · simp [h, Http2Client.setCount]

theorem setValue_frame (s : Http2Client) (callback : Option Nat) (ec : Http2Error) :
    ∃ sets, s.setValue callback ec = { s with sets := sets } := by
  cases callback with
  | none => exact ⟨s.sets, rfl⟩
  | some d => exact ⟨_, rfl⟩

theorem onData_frame (s : Http2Client) (c : Nat) (data : Bytes) :
    ∃ sets content, s.onData c data = { s with sets := sets, content := content } := by
  unfold Http2Client.onData
  by_cases hdata : data = []
  · rw [if_pos hdata]
    exact ⟨_, s.content, rfl⟩
  · rw [if_neg hdata]
    by_cases hpc : s.pc = .waiting c .get
    · rw [if_pos hpc]
      exact ⟨s.sets, _, rfl⟩
    · rw [if_neg hpc]
      exact ⟨s.sets, s.content, rfl⟩

/-- A session that refers to no more than before. -/
theorem refers_update {sessions : Nat → Http2Session} {i : Nat} {ses : Http2Session}
    {P : Nat → Prop} (hses : ∀ c, ses.Refers c → (sessions i).Refers c ∨ P c) (j c : Nat)
    (h : (Function.update sessions i ses j).Refers c) : (∃ j, (sessions j).Refers c) ∨ P c := by
  by_cases hj : j = i
  · subst hj
    rw [Function.update_self] at h
    exact (hses c h).imp_left (fun h => ⟨j, h⟩)
  · rw [Function.update_of_ne hj] at h
    exact .inl ⟨j, h⟩

/-- A step that sets no promise and ends no call. -/
theorem stepEffect_of_eq (hsets : t.sets = s.sets) (hended : t.ended = s.ended)
    (hcalls : s.calls ≤ t.calls) (htarget : s.target a = none) (hresume : a ≠ .resume)
    (hrefers : ∀ i c, (t.sessions i).Refers c →
      (∃ j, (s.sessions j).Refers c) ∨ (c = s.calls ∧ s.calls < t.calls)) : StepEffect s t a where
  sets := by
    intro c
    rw [htarget, if_neg (nofun), Nat.add_zero]
    unfold Http2Client.setCount
    rw [hsets]
  ended := by
    intro c
    rw [hended]
    exact (or_iff_left (fun h => hresume h.1)).symm
  calls := hcalls
  refers := hrefers

/-- An event that sets the promise of a callback. -/
theorem stepEffect_setValue {callback : Option Nat} (htarget : s.target a = callback)
    (hresume : a ≠ .resume) (ec : Http2Error) : StepEffect s (s.setValue callback ec) a := by
  obtain ⟨sets, hframe⟩ := setValue_frame s callback ec
  refine ⟨?_, ?_, ?_, ?_⟩
  · intro c
    rw [setCount_setValue, htarget]
  · intro c
    rw [hframe]
    exact (or_iff_left (fun h => hresume h.1)).symm
  · rw [hframe]
  · intro i c h
    rw [hframe] at h
    exact .inl ⟨i, h⟩

theorem connect_effect (s : Http2Client) (host : Bytes) (port : Option Bytes) (tls : Http2Error) :
    StepEffect s (s.connect host port tls) (.connect host port tls) := by
  cases tls with
  | some msg => exact stepEffect_of_eq rfl rfl (Nat.le_refl _) rfl nofun (fun i c h => .inl ⟨i, h⟩)
  | none =>
      refine stepEffect_of_eq rfl rfl (Nat.le_succ _) rfl nofun ?_
      refine refers_update ?_
      -- the new session refers to the new call
      intro c h
      right
      rcases h with h | h | ⟨st, hst, -⟩
      · exact ⟨(Option.some.inj h).symm, Nat.lt_succ_self _⟩
      · exact ⟨(Option.some.inj h).symm, Nat.lt_succ_self _⟩
      · cases hst

theorem get_of_not_connected (h : s.connected = false) (path : Bytes) (submitted : Bool) :
    s.get path submitted = { s with result := .error (bytes "not connected") } := by
  unfold Http2Client.get
  exact if_pos (by rw [h]; rfl)

theorem get_of_none (h : s.connected = true) (hnone : s.session = none) (path : Bytes)
    (submitted : Bool) : s.get path submitted = { s with pc := .crashed } := by
  unfold Http2Client.get
  rw [if_neg (by rw [h]; decide)]
  split
  · rfl
  · rename_i i hi
    exact nomatch hnone.symm.trans hi

theorem get_of_session (h : s.connected = true) {i : Nat} (hi : s.session = some i) (path : Bytes)
    (submitted : Bool) :
    s.get path submitted =
      if submitted then
        { (s.submitting i).updateSession i (fun ses =>
            { ses with streams := ses.streams ++ [⟨s.calls, s.url path, false⟩] })
          with pc := .waiting s.calls .get }
      else { s.submitting i with pc := .crashed } := by
  unfold Http2Client.get
  rw [if_neg (by rw [h]; decide)]
  split
  · rename_i hnone
    exact nomatch hnone.symm.trans hi
  · rename_i k hk
    obtain rfl := Option.some.inj (hk.symm.trans hi)
    rfl

theorem get_effect (s : Http2Client) (path : Bytes) (submitted : Bool) :
    StepEffect s (s.get path submitted) (.get path submitted) := by
  rcases Bool.eq_false_or_eq_true s.connected with hconn | hconn
  · rcases Option.eq_none_or_eq_some s.session with hnone | ⟨i, hi⟩
    · rw [get_of_none hconn hnone]
      exact stepEffect_of_eq rfl rfl (Nat.le_refl _) rfl nofun (fun i c h => .inl ⟨i, h⟩)
    · rw [get_of_session hconn hi]
      -- the error callback of the session is that of the new call
      have herror : ∀ j c, ((s.submitting i).sessions j).Refers c →
          (∃ j, (s.sessions j).Refers c) ∨ (c = s.calls ∧ s.calls < s.calls + 1) := by
        refine refers_update ?_
        intro c h
        rcases h with h | h | h
        · exact .inl (.inl h)
        · exact .inr ⟨(Option.some.inj h).symm, Nat.lt_succ_self _⟩
        · exact .inl (.inr (.inr h))
      cases submitted with
      | false => exact stepEffect_of_eq rfl rfl (Nat.le_succ _) rfl nofun herror
      | true =>
          refine stepEffect_of_eq rfl rfl (Nat.le_succ _) rfl nofun ?_
          intro j c h
          have hstream : (∃ j, ((s.submitting i).sessions j).Refers c) ∨ c = s.calls := by
            refine refers_update (P := fun c => c = s.calls) ?_ j c h
            intro c h
            rcases h with h | h | ⟨st, hst, hc⟩
            · exact .inl (.inl h)
            · exact .inl (.inr (.inl h))
            · rcases List.mem_append.mp hst with hst | hst
              · exact .inl (.inr (.inr ⟨st, hst, hc⟩))
              · rw [List.mem_singleton.mp hst] at hc
                exact .inr hc.symm
          rcases hstream with ⟨k, hk⟩ | hnew
          · exact herror k c hk
          · exact .inr ⟨hnew, Nat.lt_succ_self _⟩
  · rw [get_of_not_connected hconn]
    exact stepEffect_of_eq rfl rfl (Nat.le_refl _) rfl nofun (fun i c h => .inl ⟨i, h⟩)

theorem removeErrorHandler_of_some {i : Nat} (h : s.session = some i) :
    s.removeErrorHandler = s.updateSession i (fun ses => { ses with onError := none }) := by
  unfold Http2Client.removeErrorHandler
  rw [h]

theorem removeErrorHandler_of_none (h : s.session = none) : s.removeErrorHandler = s := by
  unfold Http2Client.removeErrorHandler
  rw [h]

theorem removeErrorHandler_frame (s : Http2Client) :
    ∃ sessions, s.removeErrorHandler = { s with sessions := sessions } ∧
      ∀ i c, (sessions i).Refers c → ∃ j, (s.sessions j).Refers c := by
  rcases Option.eq_none_or_eq_some s.session with hnone | ⟨k, hk⟩
  · exact ⟨s.sessions, removeErrorHandler_of_none hnone, fun i c h => ⟨i, h⟩⟩
  · refine ⟨_, removeErrorHandler_of_some hk, ?_⟩
    intro i c h
    have hrefers := refers_update (P := fun _ => False) ?_ i c h
    · exact hrefers.resolve_right id
    · intro c h
      rcases h with h | h | h
      · exact .inl (.inl h)
      · cases h
      · exact .inl (.inr (.inr h))

theorem goOn_effect {d : Nat} {method : Http2Method} (hpc : s.pc = .waiting d method) (ec : Http2Error) :
    StepEffect s (s.goOn d method ec) .resume := by
  obtain ⟨sessions, hremove, hrefers⟩ := removeErrorHandler_frame s
  -- the call that waits is the one that ends
  have hends : ∀ c, c ∈ d :: s.ended ↔ c ∈ s.ended ∨ s.EndsCall .resume c := by
    intro c
    rw [List.mem_cons, or_comm]
    refine or_congr_right ⟨?_, ?_⟩
    · rintro rfl
      exact ⟨rfl, method, hpc⟩
    · intro h
      obtain ⟨-, method', hpc'⟩ := h
      rw [hpc] at hpc'
      exact (Http2Pc.waiting.inj hpc').1.symm
  cases ec with
  | some msg => exact ⟨fun _ => rfl, hends, Nat.le_refl _, fun i c h => .inl ⟨i, h⟩⟩
  | none =>
      unfold Http2Client.goOn
      rw [hremove]
      cases method with
      | connect => exact ⟨fun _ => rfl, hends, Nat.le_refl _, fun i c h => .inl (hrefers i c h)⟩
      | get => exact ⟨fun _ => rfl, hends, Nat.le_refl _, fun i c h => .inl (hrefers i c h)⟩

/-- A step that changes one session, which then refers to no more. -/
theorem stepEffect_updateSession {i : Nat} {ses : Http2Session}
    (hses : ∀ c, ses.Refers c → (s.sessions i).Refers c) (htarget : s.target a = none)
    (hresume : a ≠ .resume) (hsets : t.sets = s.sets) (hended : t.ended = s.ended)
    (hcalls : t.calls = s.calls) (hsessions : t.sessions = Function.update s.sessions i ses) :
    StepEffect s t a := by
  refine stepEffect_of_eq hsets hended (Nat.le_of_eq hcalls.symm) htarget hresume ?_
  rw [hsessions]
  exact refers_update (fun c h => .inl (hses c h))

theorem refers_responded {ses : Http2Session} {d : Nat}
    (h : ({ ses with
        streams := ses.streams.map (fun st => if st.call = d then { st with responded := true } else st)
      } : Http2Session).Refers c) :
    ses.Refers c := by
  rcases h with h | h | ⟨st, hst, hc⟩
  · exact .inl h
  · exact .inr (.inl h)
  · obtain ⟨st', hst', rfl⟩ := List.mem_map.mp hst
    refine .inr (.inr ⟨st', hst', ?_⟩)
    by_cases hd : st'.call = d
    · rw [if_pos hd] at hc
      exact hc
    · rw [if_neg hd] at hc
      exact hc

theorem refers_closed {ses : Http2Session} {d : Nat}
    (h : ({ ses with
        streams := ses.streams.filter (fun st => st.call ≠ d) } : Http2Session).Refers c) :
    ses.Refers c := by
  rcases h with h | h | ⟨st, hst, hc⟩
  · exact .inl h
  · exact .inr (.inl h)
  · exact .inr (.inr ⟨st, (List.mem_filter.mp hst).1, hc⟩)

/-- **What one step does.** -/
theorem act_effect (h : s.act a = some t) : StepEffect s t a := by
  cases a with
  | connect host port tls =>
      obtain ⟨-, ht⟩ := Option.ite_none_right_eq_some.mp h
      exact Option.some.inj ht ▸ connect_effect s host port tls
  | disconnect =>
      obtain ⟨-, ht⟩ := Option.ite_none_right_eq_some.mp h
      rw [← Option.some.inj ht]
      unfold Http2Client.disconnect
      cases s.connected with
      | true => exact stepEffect_of_eq rfl rfl (Nat.le_refl _) rfl nofun (fun i c h => .inl ⟨i, h⟩)
      | false => exact stepEffect_of_eq rfl rfl (Nat.le_refl _) rfl nofun (fun i c h => .inl ⟨i, h⟩)
  | get path submitted =>
      obtain ⟨-, ht⟩ := Option.ite_none_right_eq_some.mp h
      exact Option.some.inj ht ▸ get_effect s path submitted
  | resume =>
      unfold Http2Client.act at h
      cases hpc : s.pc with
      | waiting c method =>
          rw [hpc] at h
          obtain ⟨ec, -, rfl⟩ := Option.map_eq_some_iff.mp h
          exact goOn_effect hpc ec
      | idle | deleted | crashed =>
          rw [hpc] at h
          cases h
  | onConnect i =>
      obtain rfl := Option.some.inj h
      exact stepEffect_setValue (a := .onConnect i) rfl nofun none
  | onError i ec =>
      obtain rfl := Option.some.inj h
      exact stepEffect_setValue (a := .onError i ec) rfl nofun ec
  | onResponse i d status =>
      obtain ⟨-, ht⟩ := Option.ite_none_right_eq_some.mp h
      obtain rfl := Option.some.inj ht
      exact stepEffect_updateSession (fun c => refers_responded) rfl nofun rfl rfl rfl rfl
  | onData i d data =>
      obtain ⟨-, ht⟩ := Option.ite_none_right_eq_some.mp h
      rw [← Option.some.inj ht]
      unfold Http2Client.onData
      by_cases hdata : data = []
      · rw [if_pos hdata]
        exact stepEffect_setValue (a := .onData i d data) (if_pos hdata) nofun none
      · rw [if_neg hdata]
        have htarget : s.target (.onData i d data) = none := if_neg hdata
        split
        · exact stepEffect_of_eq rfl rfl (Nat.le_refl _) htarget nofun (fun i c h => .inl ⟨i, h⟩)
        · exact stepEffect_of_eq rfl rfl (Nat.le_refl _) htarget nofun (fun i c h => .inl ⟨i, h⟩)
  | onClose i d =>
      obtain rfl := Option.some.inj h
      exact stepEffect_updateSession (fun c => refers_closed) rfl nofun rfl rfl rfl rfl
  | dropped i =>
      obtain ⟨-, ht⟩ := Option.ite_none_right_eq_some.mp h
      obtain rfl := Option.some.inj ht
      refine stepEffect_updateSession ?_ rfl nofun rfl rfl rfl rfl
      rintro c (h | h | ⟨st, hst, -⟩)
      · cases h
      · cases h
      · cases hst
  | delete =>
      obtain ⟨-, ht⟩ := Option.ite_none_right_eq_some.mp h
      obtain rfl := Option.some.inj ht
      exact stepEffect_of_eq rfl rfl (Nat.le_refl _) rfl nofun (fun i c h => .inl ⟨i, h⟩)

/-! ## §5. What is installed for the call that waits. -/

/-- The error callback of the call is with the session of the client and with
no other one.  So is the callback of a connect, and `get` has none. -/
def Http2Client.Installed (s : Http2Client) (c : Nat) (method : Http2Method) : Prop :=
  ∃ i, s.session = some i ∧ (s.sessions i).onError = some c ∧
    (∀ j, (s.sessions j).onError = some c → j = i) ∧
    match method with
    | .connect => (s.sessions i).onConnect = some c
    | .get => ∀ j, (s.sessions j).onConnect ≠ some c

/-- Callbacks refer to calls that have been made, and those of the call that
waits are installed. -/
structure Http2Inv (s : Http2Client) : Prop where
  known : ∀ i c, (s.sessions i).Refers c → c < s.calls
  ended : ∀ c ∈ s.ended, c < s.calls
  waiting : ∀ c method, s.pc = .waiting c method → s.Installed c method

theorem Http2Client.Installed.lt {method : Http2Method} (h : s.Installed c method)
    (hknown : ∀ i c, (s.sessions i).Refers c → c < s.calls) : c < s.calls := by
  obtain ⟨i, -, herror, -⟩ := h
  exact hknown i c (.inr (.inl herror))

/-- Streams do not matter. -/
theorem Http2Client.Installed.congr {method : Http2Method} (h : s.Installed c method)
    (hsession : t.session = s.session)
    (herror : ∀ j, (t.sessions j).onError = (s.sessions j).onError)
    (hconnect : ∀ j, (t.sessions j).onConnect = (s.sessions j).onConnect) : t.Installed c method := by
  obtain ⟨i, hi, hon, honly, hmethod⟩ := h
  refine ⟨i, hsession.trans hi, (herror i).trans hon, ?_, ?_⟩
  · intro j hj
    exact honly j ((herror j).symm.trans hj)
  · cases method with
    | connect => exact (hconnect i).trans hmethod
    | get => exact fun j hj => hmethod j ((hconnect j).symm.trans hj)

/-- A change of the streams of one session. -/
theorem Http2Client.Installed.streams {method : Http2Method} (h : s.Installed c method) {i : Nat}
    {streams : List SubmittedStream} (hsession : t.session = s.session)
    (hsessions : t.sessions =
      Function.update s.sessions i { s.sessions i with streams := streams }) :
    t.Installed c method := by
  have hsame : ∀ j, (t.sessions j).onError = (s.sessions j).onError ∧
      (t.sessions j).onConnect = (s.sessions j).onConnect := by
    intro j
    rw [hsessions]
    by_cases hj : j = i
    · subst hj
      rw [Function.update_self]
      exact ⟨rfl, rfl⟩
    · rw [Function.update_of_ne hj]
      exact ⟨rfl, rfl⟩
  exact h.congr hsession (fun j => (hsame j).1) (fun j => (hsame j).2)

/-- A session that the client has dropped is not that of the call. -/
theorem Http2Client.Installed.dropped {method : Http2Method} (h : s.Installed c method) {k : Nat}
    (hk : s.session ≠ some k) : (s.updateSession k (fun _ => {})).Installed c method := by
  obtain ⟨i, hi, hon, honly, hmethod⟩ := h
  have hne : i ≠ k := by
    rintro rfl
    exact hk hi
  have hother : ∀ j, j ≠ k → (s.updateSession k (fun _ => {})).sessions j = s.sessions j :=
    fun j hj => Function.update_of_ne hj ..
  have hself : (s.updateSession k (fun _ => {})).sessions k = {} := Function.update_self ..
  refine ⟨i, hi, ?_, ?_, ?_⟩
  · rw [hother i hne]
    exact hon
  · intro j hj
    by_cases hjk : j = k
    · rw [hjk, hself] at hj
      cases hj
    · rw [hother j hjk] at hj
      exact honly j hj
  · cases method with
    | connect =>
        show (Http2Client.sessions _ i).onConnect = some c
        rw [hother i hne]
        exact hmethod
    | get =>
        intro j
        by_cases hjk : j = k
        · rw [hjk, hself]
          exact nofun
        · rw [hother j hjk]
          exact hmethod j

theorem connect_installed (hknown : ∀ i c, (s.sessions i).Refers c → c < s.calls)
    (host : Bytes) (port : Option Bytes) : (s.connect host port none).Installed s.calls .connect := by
  have hself : (s.connect host port none).sessions s.opened =
      { onConnect := some s.calls, onError := some s.calls } := Function.update_self ..
  refine ⟨s.opened, rfl, by rw [hself], ?_, ?_⟩
  · intro j hj
    by_contra hne
    -- no other session knows the new call
    rw [show (s.connect host port none).sessions j = s.sessions j from Function.update_of_ne hne ..] at hj
    exact absurd (hknown j s.calls (.inr (.inl hj))) (Nat.lt_irrefl _)
  · show (Http2Client.sessions _ s.opened).onConnect = some s.calls
    rw [hself]

/-- A `get` that waits has no content yet, and has put its error callback and
its stream on the session of the client. -/
theorem get_waiting {path : Bytes} {submitted : Bool} {d : Nat} {method : Http2Method}
    (hidle : s.pc = .idle) (hpc : (s.get path submitted).pc = .waiting d method) :
    d = s.calls ∧ method = .get ∧ (s.get path submitted).content = [] ∧
      (s.get path submitted).session = s.session ∧
      ∃ i streams, s.session = some i ∧
        (s.get path submitted).sessions =
          Function.update s.sessions i { s.sessions i with onError := some s.calls, streams := streams } := by
  rcases Bool.eq_false_or_eq_true s.connected with hconn | hconn
  · rcases Option.eq_none_or_eq_some s.session with hnone | ⟨i, hi⟩
    · rw [get_of_none hconn hnone] at hpc
      cases hpc
    · rw [get_of_session hconn hi] at hpc ⊢
      cases submitted with
      | false => cases hpc
      | true =>
          cases hpc
          refine ⟨rfl, rfl, rfl, rfl, i, (s.sessions i).streams ++ [⟨s.calls, s.url path, false⟩], hi, ?_⟩
          show Function.update (Function.update s.sessions i _) i _ = _
          rw [Function.update_idem]
          unfold Http2Client.submitting Http2Client.updateSession
          simp only [Function.update_self]
  · rw [get_of_not_connected hconn] at hpc
    exact nomatch hidle.symm.trans hpc

theorem get_installed (hknown : ∀ i c, (s.sessions i).Refers c → c < s.calls) {path : Bytes}
    {submitted : Bool} {d : Nat} {method : Http2Method} (hidle : s.pc = .idle)
    (hpc : (s.get path submitted).pc = .waiting d method) :
    (s.get path submitted).Installed d method := by
  obtain ⟨rfl, rfl, -, hsession, i, streams, hi, hsessions⟩ := get_waiting hidle hpc
  refine ⟨i, hsession.trans hi, ?_, ?_, ?_⟩
  · rw [hsessions, Function.update_self]
  · intro j hj
    by_contra hne
    -- no other session knows the new call
    rw [hsessions, Function.update_of_ne hne] at hj
    exact absurd (hknown j s.calls (.inr (.inl hj))) (Nat.lt_irrefl _)
  · intro j hj
    have hold : (s.sessions j).onConnect = some s.calls := by
      rw [hsessions] at hj
      by_cases hji : j = i
      · subst hji
        rw [Function.update_self] at hj
        exact hj
      · rw [Function.update_of_ne hji] at hj
        exact hj
    exact absurd (hknown j s.calls (.inl hold)) (Nat.lt_irrefl _)

theorem goOn_pc (s : Http2Client) (d : Nat) (method : Http2Method) (ec : Http2Error) :
    (s.goOn d method ec).pc = .idle := by
  cases ec with
  | some msg => rfl
  | none => cases method <;> rfl

/-- **Every step keeps what is installed for the call that waits.** -/
theorem http2Inv_act (h : Http2Inv s) (hstep : s.act a = some t) : Http2Inv t := by
  have heffect := act_effect hstep
  refine ⟨?_, ?_, ?_⟩
  · intro i d hd
    rcases heffect.refers i d hd with ⟨j, hj⟩ | ⟨rfl, hlt⟩
    · exact Nat.lt_of_lt_of_le (h.known j d hj) heffect.calls
    · exact hlt
  · intro d hd
    refine Nat.lt_of_lt_of_le ?_ heffect.calls
    rcases (heffect.ended d).mp hd with hd | ⟨-, method, hpc⟩
    · exact h.ended d hd
    · exact (h.waiting d method hpc).lt h.known
  · intro d method hpc
    cases a with
    | connect host port tls =>
        obtain ⟨hidle, ht⟩ := Option.ite_none_right_eq_some.mp hstep
        obtain rfl := Option.some.inj ht
        cases tls with
        | some msg => exact nomatch hidle.symm.trans hpc
        | none =>
            cases hpc
            exact connect_installed h.known host port
    | disconnect =>
        obtain ⟨hidle, ht⟩ := Option.ite_none_right_eq_some.mp hstep
        have hpc' : t.pc = s.pc := by
          rw [← Option.some.inj ht]
          unfold Http2Client.disconnect
          cases s.connected <;> rfl
        exact nomatch hidle.symm.trans (hpc'.symm.trans hpc)
    | get path submitted =>
        obtain ⟨hidle, ht⟩ := Option.ite_none_right_eq_some.mp hstep
        obtain rfl := Option.some.inj ht
        exact get_installed h.known hidle hpc
    | resume =>
        unfold Http2Client.act at hstep
        cases hpc' : s.pc with
        | waiting d' method' =>
            rw [hpc'] at hstep
            obtain ⟨ec, -, rfl⟩ := Option.map_eq_some_iff.mp hstep
            rw [goOn_pc] at hpc
            cases hpc
        | idle | deleted | crashed =>
            rw [hpc'] at hstep
            cases hstep
    | onConnect i =>
        obtain rfl := Option.some.inj hstep
        obtain ⟨sets, hframe⟩ := setValue_frame s (s.sessions i).onConnect none
        rw [hframe] at hpc ⊢
        exact h.waiting d method hpc
    | onError i ec =>
        obtain rfl := Option.some.inj hstep
        obtain ⟨sets, hframe⟩ := setValue_frame s (s.sessions i).onError ec
        rw [hframe] at hpc ⊢
        exact h.waiting d method hpc
    | onResponse i d' status =>
        obtain ⟨-, ht⟩ := Option.ite_none_right_eq_some.mp hstep
        obtain rfl := Option.some.inj ht
        exact (h.waiting d method hpc).streams rfl rfl
    | onData i d' data =>
        obtain ⟨-, ht⟩ := Option.ite_none_right_eq_some.mp hstep
        obtain rfl := Option.some.inj ht
        obtain ⟨sets, content, hframe⟩ := onData_frame s d' data
        rw [hframe] at hpc ⊢
        exact h.waiting d method hpc
    | onClose i d' =>
        obtain rfl := Option.some.inj hstep
        exact (h.waiting d method hpc).streams rfl rfl
    | dropped i =>
        obtain ⟨hi, ht⟩ := Option.ite_none_right_eq_some.mp hstep
        obtain rfl := Option.some.inj ht
        exact (h.waiting d method hpc).dropped hi
    | delete =>
        obtain ⟨-, ht⟩ := Option.ite_none_right_eq_some.mp hstep
        obtain rfl := Option.some.inj ht
        cases hpc

theorem http2Step_act (h : http2Machine.step s a = some t) : s.act a = some t := by
  have hstep : http2Step s a = some t := h
  unfold http2Step at hstep
  split at hstep
  · cases hstep
  · exact hstep

theorem http2Inv_reach (h : http2Machine.Reach s) : Http2Inv s := by
  have hinit : Http2Inv http2Machine.init := by
    refine ⟨?_, nofun, nofun⟩
    rintro i d (hd | hd | ⟨st, hst, -⟩)
    · cases hd
    · cases hd
    · cases hst
  exact h.invariant hinit (fun _ _ _ hs _ hstep => http2Inv_act hs (http2Step_act hstep))

/-! ## §6. Promises that are used well. -/

/-- The promise of the call has been set once at most, and if the call is over
no callback of a session refers to it. -/
def Http2Client.UsedWell (s : Http2Client) (c : Nat) : Prop :=
  s.setCount c ≤ 1 ∧ (c ∈ s.ended → ∀ i, ¬ (s.sessions i).Refers c)

/-- The call that waits is a `get` that succeeds, and its stream is closed. -/
def Http2Client.EndsClean (s : Http2Client) (c : Nat) : Prop :=
  s.pc = .waiting c .get ∧ s.value c = some none ∧ ∀ i, ∀ st ∈ (s.sessions i).streams, st.call ≠ c

/-- A step does a call no harm: no event sets its promise again, and the call
ends clean if it ends. -/
def HarmlessTo (c : Nat) (s : Http2Client) (a : Http2Action) : Prop :=
  (s.target a = some c → s.setCount c = 0) ∧ (s.EndsCall a c → s.EndsClean c)

/-- **The end of a call** leaves no callback that refers to it exactly if it is
a successful `get` whose stream is closed. -/
theorem goOn_clean_iff {method : Http2Method} (h : s.Installed c method) (ec : Http2Error) :
    (∀ i, ¬ ((s.goOn c method ec).sessions i).Refers c) ↔
      method = .get ∧ ec = none ∧ ∀ i, ∀ st ∈ (s.sessions i).streams, st.call ≠ c := by
  obtain ⟨i, hi, herror, honly, hmethod⟩ := h
  cases ec with
  | some msg =>
      -- the error callback is left where it is
      refine iff_of_false ?_ (fun h => nomatch h.2.1)
      intro hclean
      exact hclean i (.inr (.inl herror))
  | none =>
      have hsessions : (s.goOn c method none).sessions =
          Function.update s.sessions i { s.sessions i with onError := none } := by
        unfold Http2Client.goOn
        rw [removeErrorHandler_of_some hi]
        cases method <;> rfl
      rw [hsessions]
      cases method with
      | connect =>
          -- so is the callback for the connect
          refine iff_of_false ?_ (fun h => nomatch h.1)
          intro hclean
          apply hclean i
          rw [Function.update_self]
          exact .inl hmethod
      | get =>
          constructor
          · intro hclean
            refine ⟨rfl, rfl, ?_⟩
            intro j st hst hc
            apply hclean j
            by_cases hj : j = i
            · subst hj
              rw [Function.update_self]
              exact .inr (.inr ⟨st, hst, hc⟩)
            · rw [Function.update_of_ne hj]
              exact .inr (.inr ⟨st, hst, hc⟩)
          · intro h j hrefers
            obtain ⟨-, -, hclosed⟩ := h
            by_cases hj : j = i
            · subst hj
              rw [Function.update_self] at hrefers
              rcases hrefers with hconn | herr | ⟨st, hst, hc⟩
              · exact hmethod j hconn
              · cases herr
              · exact hclosed j st hst hc
            · rw [Function.update_of_ne hj] at hrefers
              rcases hrefers with hconn | herr | ⟨st, hst, hc⟩
              · exact hmethod j hconn
              · exact hj (honly j herr)
              · exact hclosed j st hst hc

/-- **One step**, from a state in which the promise of the call is used well. -/
theorem usedWell_act_iff (hinv : Http2Inv s) (hwell : s.UsedWell c) (hstep : s.act a = some t) :
    t.UsedWell c ↔ HarmlessTo c s a := by
  have heffect := act_effect hstep
  have hsets := heffect.sets c
  by_cases hends : s.EndsCall a c
  · obtain ⟨rfl, method, hpc⟩ := hends
    unfold Http2Client.act at hstep
    rw [hpc] at hstep
    obtain ⟨ec, hvalue, rfl⟩ := Option.map_eq_some_iff.mp hstep
    have hended : c ∈ (s.goOn c method ec).ended := (heffect.ended c).mpr (.inr ⟨rfl, method, hpc⟩)
    have hcount : (s.goOn c method ec).setCount c ≤ 1 := by
      rw [hsets, if_neg (nofun), Nat.add_zero]
      exact hwell.1
    have hclean := goOn_clean_iff (hinv.waiting c method hpc) ec
    constructor
    · intro ht
      obtain ⟨rfl, rfl, hclosed⟩ := hclean.mp (ht.2 hended)
      exact ⟨nofun, fun _ => ⟨hpc, hvalue, hclosed⟩⟩
    · intro hharmless
      obtain ⟨hpc', hvalue', hclosed⟩ := hharmless.2 ⟨rfl, method, hpc⟩
      have hmethod : method = .get := (Http2Pc.waiting.inj (hpc.symm.trans hpc')).2
      have hec : ec = none := Option.some.inj (hvalue.symm.trans hvalue')
      exact ⟨hcount, fun _ => hclean.mpr ⟨hmethod, hec, hclosed⟩⟩
  · -- what refers to a call that is over referred to it before
    have hrefers : c ∈ t.ended → ∀ i, ¬ (t.sessions i).Refers c := by
      intro hc i hi
      have hc' : c ∈ s.ended := ((heffect.ended c).mp hc).resolve_right hends
      rcases heffect.refers i c hi with ⟨j, hj⟩ | ⟨rfl, -⟩
      · exact hwell.2 hc' j hj
      · exact absurd (hinv.ended s.calls hc') (Nat.lt_irrefl _)
    unfold Http2Client.UsedWell HarmlessTo
    rw [hsets]
    have hbefore := hwell.1
    by_cases htarget : s.target a = some c
    · rw [if_pos htarget]
      constructor
      · intro h
        exact ⟨fun _ => by omega, fun h => absurd h hends⟩
      · intro h
        exact ⟨by rw [h.1 htarget], hrefers⟩
    · rw [if_neg htarget]
      constructor
      · intro h
        exact ⟨fun h => absurd h htarget, fun h => absurd h hends⟩
      · intro h
        exact ⟨hbefore, hrefers⟩

/-- **PROMISES ARE USED WELL, EXACTLY IF** no event sets one twice and every
call that ends is a successful `get` whose stream is closed by then.  This is
said of each call of each run: its promise is set once at most, and after its
end no callback refers to it. -/
theorem promises_used_well_iff {as : List Http2Action} (hrun : (http2Machine.run as).isSome) (c : Nat) :
    (∀ before s, before <+: as → http2Machine.run before = some s → s.UsedWell c) ↔
      ∀ before a s, before ++ [a] <+: as → http2Machine.run before = some s → HarmlessTo c s a := by
  have hinit : http2Machine.init.UsedWell c := ⟨Nat.zero_le 1, nofun⟩
  have hexact := Machine.run_invariant_iff (M := http2Machine)
    (I := fun s => Http2Inv s ∧ s.UsedWell c) (g := HarmlessTo c)
    ⟨http2Inv_reach .init, hinit⟩ ?_ hrun
  · rw [← hexact]
    constructor
    · intro h before s hbefore hs
      exact ⟨http2Inv_reach (Machine.reach_iff_run.mpr ⟨before, hs⟩), h before s hbefore hs⟩
    · intro h before s hbefore hs
      exact (h before s hbefore hs).2
  · rintro s a t ⟨hinv, hwell⟩ hstep
    have hact := http2Step_act hstep
    rw [← usedWell_act_iff hinv hwell hact]
    exact and_iff_right (http2Inv_act hinv hact)

/-- The steps up to the end of a successful `connect`. -/
def connectSteps : List Http2Action :=
  [.connect (bytes "localhost") none none, .onConnect 0, .resume]

/-- A `get` whose stream is closed before the fiber goes on. -/
def getSteps : List Http2Action :=
  [.get (bytes "/") true, .onResponse 0 1 200, .onData 0 1 [], .onClose 0 1, .resume]

/-- The promise of this `get` is used well. -/
theorem promises_used_well_iff_get :
    (http2Machine.run (connectSteps ++ getSteps)).map (fun s => (s.setCount 1, s.ended)) =
        some (1, [1, 0]) ∧
      ∀ before s, before <+: connectSteps ++ getSteps → http2Machine.run before = some s →
        s.UsedWell 1 := by
  refine ⟨by decide +kernel, ?_⟩
  refine (promises_used_well_iff (by decide +kernel) 1).mpr ?_
  intro before a s hbefore hs
  obtain ⟨k, hlt, rfl, ha⟩ := Machine.exists_take_of_prefix hbefore
  have hlen : k < 8 := hlt
  clear hbefore
  interval_cases k
  all_goals
    obtain rfl := Option.some.inj ha
    obtain rfl := Option.some.inj hs
  · exact ⟨nofun, fun h => nomatch h.1⟩
  · exact ⟨nofun, fun h => nomatch h.1⟩
  · exact ⟨nofun, fun h => nomatch h.2⟩
  · exact ⟨nofun, fun h => nomatch h.1⟩
  · exact ⟨nofun, fun h => nomatch h.1⟩
  · exact ⟨fun _ => rfl, fun h => nomatch h.1⟩
  · exact ⟨nofun, fun h => nomatch h.1⟩
  · refine ⟨nofun, fun _ => ⟨rfl, rfl, ?_⟩⟩
    intro i st hst
    cases i with
    | zero => cases hst
    | succ i => cases hst

/-- **CALLBACKS OUTLIVE THEIR CALLS.**  A `connect` that has succeeded leaves its
callback on the session; an error behind the event that has satisfied its
promise sets the promise again; and after a `get` that has failed the next
error is reported to the promise of that call. -/
theorem callback_outlives_call :
    let reset : Http2Error := some (bytes "connection reset")
    (http2Machine.run connectSteps).map (fun s => (s.ended, (s.sessions 0).onConnect)) =
        some ([0], some 0) ∧
    (http2Machine.run [.connect (bytes "localhost") none none, .onConnect 0, .onError 0 reset]).map
        (fun s => s.setCount 0) = some 2 ∧
    (http2Machine.run (connectSteps ++
        [.get (bytes "/") true, .onError 0 reset, .resume, .onError 0 reset])).map
        (fun s => (s.ended, s.setCount 1)) = some ([1, 0], 2) ∧
    ¬ ∀ s, http2Machine.Reach s → ∀ c, s.UsedWell c := by
  intro reset
  refine ⟨by decide +kernel, by decide +kernel, by decide +kernel, ?_⟩
  intro hall
  obtain ⟨s, hreach, hended, hconnect⟩ := http2Machine.exists_reach_of_run connectSteps
    (fun s => 0 ∈ s.ended ∧ (s.sessions 0).onConnect = some 0) (by decide +kernel)
  exact (hall s hreach 0).2 hended 0 (.inl hconnect)

end Petrel
