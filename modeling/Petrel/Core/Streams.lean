/-
  Petrel.Core.Streams — the HTTP/2 front end, stream by stream.

  The handler that `start_http2` installs is called when the head of a stream
  has arrived.  It routes a GET at once; for a POST it leaves a callback that
  collects the chunks of the body in a buffer of its own and routes the stream
  at the empty chunk; every other method it answers itself.  A route to a Lua
  handler only leaves a job for a fiber, which begins later and ends later
  still; all other routes answer in the callback.  The callbacks and the fibers
  of all streams take their steps in any order.  The library delivers for a
  stream its head, then chunks of which an empty one is the last, then the
  close; a close may come before the end, and it ends the life of the request
  and the response that the job refers to.

  Main results:
    * `route_callback`  — a route is what its callback does, and then the job.
    * `streams_handled` — the callbacks take the streams that are complete, each
      one once, when it gets complete; each has been handled, once, as the whole
      stream would be, or has a fiber that has not ended, unless it was closed
      before its fiber was through.
-/

import Petrel.Core.ServerImpl
import Petrel.Framework.Machine

namespace Petrel

open Framework

/-! ## §1. Callbacks and the jobs they leave. -/

/-- What the job of a request captures, besides the request. -/
structure HandlerJob where
  func : Bytes
  metricErr : MetricId
  metricTimes : MetricId

section Jobs

variable {Num : Type} [DecidableEq Num] [LuaNumber Num]

/-- The run of a job in its fiber.  The timers are updated when it is destroyed. -/
def HandlerJob.code (srv : ServerImpl) (env : RouteEnv Num) (fuel : Nat) (job : HandlerJob) :
    RouteCode Num Unit :=
  timed env.sampled [srv.metricTimes, some job.metricTimes]
    (srv.requestFiber env fuel job.func job.metricErr)

/-- The route function of `add_route` until it returns: the job that it has
passed to `fiber_cache::run`, if any. -/
def ServerImpl.luaCallback (srv : ServerImpl) (env : RouteEnv Num) (func : Bytes)
    (metricReq metricErr metricTimes : MetricId) : RouteCode Num (Option HandlerJob) := do
  let s ← Code.get
  if s.handling.req.method = .get ∨ s.handling.req.method = .post then
    record srv.metricRequests
    record (some metricReq)
    match env.runFiber with
    | .ok () => pure (some ⟨func, metricErr, metricTimes⟩)
    | .error _ =>
        timed env.sampled [srv.metricTimes, some metricTimes] (srv.failRequest metricErr)
        pure none
  else
    record srv.metricNotImpl
    respond (sendErrorResponse 501)
    pure none

/-- A route function until it returns. -/
def ServerImpl.callback (srv : ServerImpl) (env : RouteEnv Num) :
    RouteFunc → RouteCode Num (Option HandlerJob)
  | .lua func metricReq metricErr metricTimes => srv.luaCallback env func metricReq metricErr metricTimes
  | .directory path dir metricReq metricErr metricTimes => do
      srv.directoryRoute env path dir metricReq metricErr metricTimes
      pure none
  | .notFound => do
      respond (sendErrorResponse 404)
      pure none
  | .empty => Code.die .badCall

/-- The end of the HTTP/2 handler for methods that are neither GET nor POST. -/
def ServerImpl.notImplemented (srv : ServerImpl) : RouteCode Num (Option HandlerJob) := do
  record srv.metricNotImpl
  respond (sendErrorResponse 501)
  pure none

/-- What is left to do behind a callback. -/
def jobCode (srv : ServerImpl) (env : RouteEnv Num) (fuel : Nat) : Option HandlerJob → RouteCode Num Unit
  | some job => job.code srv env fuel
  | none => pure ()

/-- No exception leaves a fiber. -/
theorem requestFiber_ne_threw (srv : ServerImpl) (env : RouteEnv Num) (fuel : Nat) (func : Bytes)
    (metricErr : MetricId) (s : Serving Num) (e : Bytes) (t : Serving Num) :
    srv.requestFiber env fuel func metricErr s ≠ .threw e t :=
  Code.catching_die_ne_threw _ _ _ _ _

/-- Nothing is left to do behind a 501. -/
theorem notImplemented_jobCode (srv : ServerImpl) (env : RouteEnv Num) (fuel : Nat) (s : Serving Num) :
    (do record srv.metricNotImpl
        respond (sendErrorResponse 501) : RouteCode Num Unit) s =
      (srv.notImplemented s).andThen (jobCode srv env fuel) := by
  unfold ServerImpl.notImplemented
  rw [Code.bind_apply, Code.bind_apply, Outcome.andThen_assoc]
  refine congrArg (Outcome.andThen _) (funext fun _ => funext fun t => ?_)
  show _ = ((respond (sendErrorResponse 501) t).andThen _).andThen _
  rw [Outcome.andThen_assoc]
  exact (Outcome.andThen_pure _).symm

/-- A Lua route is its callback, and then the job. -/
theorem luaRoute_callback (srv : ServerImpl) (env : RouteEnv Num) (fuel : Nat) (func : Bytes)
    (metricReq metricErr metricTimes : MetricId) (s : Serving Num) :
    srv.luaRoute env fuel func metricReq metricErr metricTimes s =
      (srv.luaCallback env func metricReq metricErr metricTimes s).andThen (jobCode srv env fuel) := by
  unfold ServerImpl.luaRoute ServerImpl.luaCallback
  simp only [Code.bind_apply, Code.get_apply, Outcome.andThen_returned]
  by_cases hmethod : s.handling.req.method = .get ∨ s.handling.req.method = .post
  · rw [if_pos hmethod, if_pos hmethod]
    rw [Code.bind_apply, Code.bind_apply, Outcome.andThen_assoc]
    refine congrArg (Outcome.andThen _) (funext fun _ => funext fun t => ?_)
    rw [Code.bind_apply, Code.bind_apply, Outcome.andThen_assoc]
    refine congrArg (Outcome.andThen _) (funext fun _ => funext fun t' => ?_)
    cases env.runFiber with
    | ok u =>
        -- nothing catches what the fiber does
        have hcatch : (srv.requestFiber env fuel func metricErr).catching
            (fun _ => srv.failRequest metricErr) = srv.requestFiber env fuel func metricErr :=
          funext fun v => Code.catching_of_ne_threw (requestFiber_ne_threw srv env fuel func metricErr v)
        show timed _ _ _ t' = (Outcome.returned _ t').andThen _
        rw [hcatch]
        rfl
    | error e =>
        have hcatch : (Code.throw e : RouteCode Num Unit).catching (fun _ => srv.failRequest metricErr) =
            srv.failRequest metricErr := rfl
        show timed _ _ _ t' = ((timed _ _ _ t').andThen _).andThen _
        rw [hcatch, Outcome.andThen_assoc]
        exact (Outcome.andThen_pure _).symm
  · rw [if_neg hmethod, if_neg hmethod]
    exact notImplemented_jobCode srv env fuel s

/-- **A route is its callback, and then the job** that the callback leaves. -/
theorem route_callback (srv : ServerImpl) (env : RouteEnv Num) (fuel : Nat) (func : RouteFunc)
    (s : Serving Num) :
    srv.route env fuel func s = (srv.callback env func s).andThen (jobCode srv env fuel) := by
  cases func with
  | empty => rfl
  | notFound =>
      show _ = ((respond (sendErrorResponse 404) s).andThen _).andThen _
      rw [Outcome.andThen_assoc]
      exact (Outcome.andThen_pure _).symm
  | lua func a b c => exact luaRoute_callback srv env fuel func a b c s
  | directory path dir a b c =>
      show _ = ((srv.directoryRoute env path dir a b c s).andThen _).andThen _
      rw [Outcome.andThen_assoc]
      exact (Outcome.andThen_pure _).symm

end Jobs

/-! ## §2. The streams, their callbacks and their fibers. -/

/-- The head of a stream, which the handler is called with. -/
structure Http2Head where
  method : Bytes
  scheme : Bytes
  host : Bytes
  rawPath : Bytes
  rawQuery : Bytes
  headers : Headers
  remoteAddr : Bytes
  remoteIsV4 : Bool

/-- A chunk with something in it. -/
abbrev Chunk := { data : Bytes // data ≠ [] }

/-- The stream of a head and of the chunks of its body. -/
def Http2Head.stream (r : Http2Head) (chunks : List Chunk) : Http2Stream where
  method := r.method
  scheme := r.scheme
  host := r.host
  rawPath := r.rawPath
  rawQuery := r.rawQuery
  headers := r.headers
  chunks := chunks
  remoteAddr := r.remoteAddr
  remoteIsV4 := r.remoteIsV4

/-- What happens for the stream with the key `k`: the calls of the library, and
the first and the last stretch of the fiber of its job.  On the first it reads
the request, on the last it sends the response; between them the Lua function
may suspend it. -/
inductive StreamEvent (κ : Type) where
  | request (k : κ) (r : Http2Head)
  | data (k : κ) (data : Bytes)
  | close (k : κ)
  | fiberBegins (k : κ)
  | fiberEnds (k : κ) (fuel : Nat)

/-- Where the library is with a stream. -/
inductive StreamPhase where
  | idle
  | opened
  | ended
  | closed
  deriving DecidableEq

section Streams

variable {κ Num : Type} [DecidableEq κ] [DecidableEq Num] [LuaNumber Num]

/-- A fiber with a job that has not ended, and the request as the callback has
left it. -/
structure HandlerFiber (Num : Type) where
  job : HandlerJob
  serving : Serving Num
  begun : Bool := false

/-- The front end: the phase of every stream, the callback `on_data` has left
for it (`req` and `buf`), the fiber of its job, the requests that were made of
the streams, and the handlings that have ended.  `dangling` has the stream whose
fiber went on behind its close.  `stopped` says that the process is gone. -/
structure Streams (κ Num : Type) where
  phase : κ → StreamPhase := fun _ => .idle
  onData : κ → Option (Http2Head × Bytes) := fun _ => none
  fiber : κ → Option (HandlerFiber Num) := fun _ => none
  taken : List (κ × Request) := []
  ended : List (κ × Outcome Bytes Fault (Serving Num) Unit) := []
  dangling : List κ := []
  stopped : Bool := false

/-- The run has returned. -/
def returns {α : Type} : Outcome Bytes Fault (Serving Num) α → Bool
  | .returned _ _ => true
  | _ => false

/-- The run is not over. -/
def unfinished {α : Type} : Outcome Bytes Fault (Serving Num) α → Bool
  | .exhausted _ => true
  | _ => false

/-- A handling has ended.  Nothing catches what leaves a callback or a fiber. -/
def Streams.finish (k : κ) (o : Outcome Bytes Fault (Serving Num) Unit) (s : Streams κ Num) :
    Streams κ Num :=
  { s with
    ended := s.ended ++ [(k, o)]
    fiber := Function.update s.fiber k none
    stopped := !returns o }

/-- A request is made of a stream and taken by the code of a callback. -/
def Streams.take (k : κ) (req : Request) (code : RouteCode Num (Option HandlerJob))
    (s : Streams κ Num) : Streams κ Num :=
  let s := { s with taken := s.taken ++ [(k, req)] }
  match code (.start req) with
  | .returned (some job) t => { s with fiber := Function.update s.fiber k (some ⟨job, t, false⟩) }
  | o => s.finish k (o.andThen fun _ t => .returned () t)

/-- The handler of `"/"`. -/
def Streams.request (srv : ServerImpl) (env : κ → RouteEnv Num) (k : κ) (r : Http2Head)
    (s : Streams κ Num) : Streams κ Num :=
  if r.method = bytes "GET" then
    s.take k (.ofHttp2 (r.stream []) none) (srv.callback (env k) (srv.router.findRoute r.rawPath))
  else if r.method = bytes "POST" then
    { s with onData := Function.update s.onData k (some (r, [])) }
  else s.take k (.ofHttp2 (r.stream []) none) srv.notImplemented

/-- The callback of a stream; without one the library drops the data. -/
def Streams.data (srv : ServerImpl) (env : κ → RouteEnv Num) (k : κ) (data : Bytes)
    (s : Streams κ Num) : Streams κ Num :=
  match s.onData k with
  | none => s
  | some (r, buf) =>
      if data.length = 0 then
        s.take k (.ofHttp2 (r.stream []) (some buf)) (srv.callback (env k) (srv.router.findRoute r.rawPath))
      else
        { s with onData := Function.update s.onData k (some (r, buf ++ data)) }

/-- A fiber uses the request or the response of a closed stream. -/
def Streams.dangle (k : κ) (s : Streams κ Num) : Streams κ Num :=
  { s with
    dangling := s.dangling ++ [k]
    fiber := Function.update s.fiber k none
    stopped := true }

/-- A fiber runs for the first time, and reads the request. -/
def Streams.fiberBegins (k : κ) (s : Streams κ Num) : Option (Streams κ Num) :=
  (s.fiber k).bind fun f =>
    if f.begun then none
    else if s.phase k = .closed then some (s.dangle k)
    else some { s with fiber := Function.update s.fiber k (some { f with begun := true }) }

/-- A fiber runs to the end of its job, if the fuel is enough for it. -/
def Streams.fiberEnds (srv : ServerImpl) (env : κ → RouteEnv Num) (k : κ) (fuel : Nat)
    (s : Streams κ Num) : Option (Streams κ Num) :=
  (s.fiber k).bind fun f =>
    if f.begun = false ∨ unfinished (f.job.code srv (env k) fuel f.serving) then none
    else if s.phase k = .closed then some (s.dangle k)
    else some (s.finish k (f.job.code srv (env k) fuel f.serving))

def Streams.setPhase (k : κ) (p : StreamPhase) (s : Streams κ Num) : Streams κ Num :=
  { s with phase := Function.update s.phase k p }

/-- One step, of a process that is there: a head for a stream that is new, data
for one that is open, the close of one that is not closed yet, or a stretch of a
fiber.  The close destroys the callback, but no fiber. -/
def Streams.step (srv : ServerImpl) (env : κ → RouteEnv Num) (s : Streams κ Num)
    (e : StreamEvent κ) : Option (Streams κ Num) :=
  if s.stopped then none
  else match e with
    | .request k r =>
        if s.phase k = .idle then some ((s.setPhase k .opened).request srv env k r) else none
    | .data k data =>
        if s.phase k = .opened then
          some ((s.setPhase k (if data = [] then .ended else .opened)).data srv env k data)
        else none
    | .close k =>
        if s.phase k = .opened ∨ s.phase k = .ended then
          some { s.setPhase k .closed with onData := Function.update s.onData k none }
        else none
    | .fiberBegins k => s.fiberBegins k
    | .fiberEnds k fuel => s.fiberEnds srv env k fuel

/-- The HTTP/2 server of a server that has started. -/
def streams (srv : ServerImpl) (env : κ → RouteEnv Num) : Machine (Streams κ Num) (StreamEvent κ) where
  init := {}
  step := Streams.step srv env

end Streams

/-! ## §3. The streams of a list of events. -/

section Calls

variable {κ : Type} [DecidableEq κ]

def StreamEvent.key : StreamEvent κ → κ
  | .request k _ => k
  | .data k _ => k
  | .close k => k
  | .fiberBegins k => k
  | .fiberEnds k _ => k

/-- The stream whose fiber takes the step. -/
def StreamEvent.ofFiber : StreamEvent κ → Option κ
  | .fiberBegins k => some k
  | .fiberEnds k _ => some k
  | _ => none

/-- No fiber goes on behind the close of its stream. -/
def InTime (evs : List (StreamEvent κ)) : Prop :=
  evs.Pairwise (fun a b => ∀ k, a = .close k → b.ofFiber ≠ some k)

/-- The head of a stream among the events. -/
def headOf (evs : List (StreamEvent κ)) (k : κ) : Option Http2Head :=
  evs.findSome? fun
    | .request k' r => if k' = k then some r else none
    | _ => none

/-- The chunk an event brings to a stream. -/
def chunkOf (k : κ) : StreamEvent κ → Option Chunk
  | .data k' data => if h : k' = k ∧ data ≠ [] then some ⟨data, h.2⟩ else none
  | _ => none

/-- The event brings the end of the data of a stream. -/
def StreamEvent.endsData (k : κ) : StreamEvent κ → Bool
  | .data k' d => decide (k' = k) && d.isEmpty
  | _ => false

/-- What the events have brought to a stream. -/
structure Brought where
  head : Option Http2Head
  chunks : List Chunk
  ended : Bool

/-- What the events have brought to the stream `k`. -/
def brought (evs : List (StreamEvent κ)) (k : κ) : Brought :=
  ⟨headOf evs k, evs.filterMap (chunkOf k), evs.any (StreamEvent.endsData k)⟩

/-- The stream, once it is complete: a POST with all its data, everything else
with its head. -/
def wholeStream (evs : List (StreamEvent κ)) (k : κ) : Option Http2Stream :=
  (brought evs k).head.bind fun r =>
    if r.method = bytes "POST" then
      if (brought evs k).ended then some (r.stream (brought evs k).chunks) else none
    else some (r.stream [])

/-- The stream that the last of the events has completed. -/
def completedBy (evs : List (StreamEvent κ)) : Option (κ × Http2Stream) :=
  evs.getLast?.bind fun e =>
    if wholeStream evs.dropLast e.key = none then (wholeStream evs e.key).map (fun r => (e.key, r))
    else none

/-- The complete streams, in the order in which they got complete. -/
def completed (evs : List (StreamEvent κ)) : List (κ × Http2Stream) :=
  evs.inits.filterMap completedBy

theorem completed_concat (evs : List (StreamEvent κ)) (e : StreamEvent κ) :
    completed (evs ++ [e]) = completed evs ++
      (if wholeStream evs e.key = none then
        ((wholeStream (evs ++ [e]) e.key).map (fun r => (e.key, r))).toList else []) := by
  have hlast : completedBy (evs ++ [e]) =
      if wholeStream evs e.key = none then
        (wholeStream (evs ++ [e]) e.key).map (fun r => (e.key, r)) else none := by
    unfold completedBy
    rw [List.getLast?_concat, List.dropLast_concat]
    rfl
  unfold completed
  rw [List.inits_append, List.filterMap_append]
  congr 1
  show [evs ++ [e]].filterMap completedBy = _
  rw [List.filterMap_cons, hlast, List.filterMap_nil]
  by_cases hnone : wholeStream evs e.key = none
  · rw [if_pos hnone, if_pos hnone]
    cases wholeStream (evs ++ [e]) e.key with
    | none => rfl
    | some r => rfl
  · rw [if_neg hnone, if_neg hnone]

theorem headOf_concat (evs : List (StreamEvent κ)) (e : StreamEvent κ) (k : κ) :
    headOf (evs ++ [e]) k = (headOf evs k).or (headOf [e] k) := by
  unfold headOf
  rw [List.findSome?_append]

theorem headOf_of_ne {e : StreamEvent κ} {k : κ} (hk : e.key ≠ k) : headOf [e] k = none := by
  cases e with
  | request k' r => simp [headOf, show k' ≠ k from hk]
  | _ => rfl

theorem chunkOf_of_ne {e : StreamEvent κ} {k : κ} (hk : e.key ≠ k) : chunkOf k e = none := by
  cases e with
  | data k' d => simp [chunkOf, show k' ≠ k from hk]
  | _ => rfl

theorem endsData_of_ne {e : StreamEvent κ} {k : κ} (hk : e.key ≠ k) : e.endsData k = false := by
  cases e with
  | data k' d => simp [StreamEvent.endsData, show k' ≠ k from hk]
  | _ => rfl

/-- An event changes its own stream only. -/
theorem brought_of_ne (evs : List (StreamEvent κ)) {e : StreamEvent κ} {k : κ} (hk : e.key ≠ k) :
    brought (evs ++ [e]) k = brought evs k := by
  unfold brought
  rw [headOf_concat, headOf_of_ne hk, Option.or_none]
  simp [chunkOf_of_ne hk, endsData_of_ne hk]

theorem brought_request (evs : List (StreamEvent κ)) (k : κ) (r : Http2Head) :
    brought (evs ++ [.request k r]) k =
      { brought evs k with head := (brought evs k).head.or (some r) } := by
  unfold brought
  rw [headOf_concat]
  simp [headOf, chunkOf, StreamEvent.endsData]

theorem brought_chunk (evs : List (StreamEvent κ)) (k : κ) {d : Bytes} (hd : d ≠ []) :
    brought (evs ++ [.data k d]) k =
      { brought evs k with chunks := (brought evs k).chunks ++ [⟨d, hd⟩] } := by
  unfold brought
  rw [headOf_concat]
  simp [headOf, chunkOf, StreamEvent.endsData, hd]

theorem brought_end (evs : List (StreamEvent κ)) (k : κ) :
    brought (evs ++ [.data k []]) k = { brought evs k with ended := true } := by
  unfold brought
  rw [headOf_concat]
  simp [headOf, chunkOf, StreamEvent.endsData]

theorem brought_close (evs : List (StreamEvent κ)) (k : κ) :
    brought (evs ++ [.close k]) k = brought evs k := by
  unfold brought
  rw [headOf_concat]
  simp [headOf, chunkOf, StreamEvent.endsData]

/-- A fiber brings nothing. -/
theorem brought_ofFiber (evs : List (StreamEvent κ)) {e : StreamEvent κ} {k : κ} (he : e.ofFiber = some k) :
    brought (evs ++ [e]) k = brought evs k := by
  unfold brought
  rw [headOf_concat]
  cases e with
  | request k' r => cases he
  | data k' d => cases he
  | close k' => cases he
  | fiberBegins k' => simp [headOf, chunkOf, StreamEvent.endsData]
  | fiberEnds k' fuel => simp [headOf, chunkOf, StreamEvent.endsData]

omit [DecidableEq κ] in
theorem inTime_concat (evs : List (StreamEvent κ)) (e : StreamEvent κ) :
    InTime (evs ++ [e]) ↔ InTime evs ∧ ∀ k, e.ofFiber = some k → .close k ∉ evs := by
  unfold InTime
  rw [List.pairwise_append]
  constructor
  · rintro ⟨hevs, -, hlast⟩
    exact ⟨hevs, fun k hk hclose => hlast _ hclose e (List.mem_singleton_self e) k rfl hk⟩
  · rintro ⟨hevs, hlast⟩
    refine ⟨hevs, List.pairwise_singleton _ _, ?_⟩
    rintro a ha b hb k rfl hk
    rw [List.mem_singleton.mp hb] at hk
    exact hlast k hk ha

/-- The complete streams of the list are those that are whole, each of them once. -/
structure Counted (evs : List (StreamEvent κ)) : Prop where
  mem : ∀ k r, (k, r) ∈ completed evs ↔ wholeStream evs k = some r
  nodup : ((completed evs).map Prod.fst).Nodup

/-- An event that leaves a whole stream as it is keeps the list right. -/
theorem Counted.concat {evs : List (StreamEvent κ)} (h : Counted evs) {e : StreamEvent κ}
    (hkeep : ∀ r, wholeStream evs e.key = some r → wholeStream (evs ++ [e]) e.key = some r) :
    Counted (evs ++ [e]) := by
  have hother : ∀ k, e.key ≠ k → wholeStream (evs ++ [e]) k = wholeStream evs k := fun k hk => by
    unfold wholeStream
    rw [brought_of_ne evs hk]
  cases hwas : wholeStream evs e.key with
  | some r₀ =>
      have hsame : completed (evs ++ [e]) = completed evs := by
        rw [completed_concat, if_neg (by simp [hwas]), List.append_nil]
      refine ⟨fun k r => ?_, hsame ▸ h.nodup⟩
      rw [hsame, h.mem]
      by_cases hk : e.key = k
      · subst hk
        rw [hkeep r₀ hwas, hwas]
      · rw [hother k hk]
  | none =>
      have hnot : ∀ r, (e.key, r) ∉ completed evs := fun r hr => by
        rw [h.mem, hwas] at hr
        cases hr
      have hnew : completed (evs ++ [e]) = completed evs ++
          ((wholeStream (evs ++ [e]) e.key).map (fun r => (e.key, r))).toList := by
        rw [completed_concat, if_pos hwas]
      constructor
      · intro k r
        rw [hnew, List.mem_append, h.mem]
        by_cases hk : e.key = k
        · subst hk
          cases hnow : wholeStream (evs ++ [e]) e.key with
          | none => simp [hwas]
          | some r' => simp [hwas, eq_comm]
        · rw [hother k hk]
          cases hnow : wholeStream (evs ++ [e]) e.key with
          | none => simp
          | some r' => simp [Ne.symm hk]
      · rw [hnew, List.map_append, List.nodup_append]
        refine ⟨h.nodup, ?_, ?_⟩
        · cases wholeStream (evs ++ [e]) e.key <;> simp
        · intro k hk k' hk'
          obtain ⟨⟨_, r⟩, hr, rfl⟩ := List.mem_map.mp hk
          rintro rfl
          cases hnow : wholeStream (evs ++ [e]) e.key with
          | none => simp [hnow] at hk'
          | some r' =>
              simp only [hnow, Option.map_some, Option.toList_some, List.map_cons, List.map_nil,
                List.mem_singleton] at hk'
              exact hnot r (hk' ▸ hr)

end Calls

/-! ## §4. The run. -/

section Run

variable {κ Num : Type} [DecidableEq κ] [DecidableEq Num] [LuaNumber Num]
  {srv : ServerImpl} {env : κ → RouteEnv Num} {s t : Streams κ Num} {evs : List (StreamEvent κ)}

/-- How the handlings of a stream have ended. -/
def Streams.outcomes (s : Streams κ Num) (k : κ) : List (Outcome Bytes Fault (Serving Num) Unit) :=
  s.ended.filterMap (fun c => if c.1 = k then some c.2 else none)

/-- Nothing has been done for a stream. -/
structure Streams.Untaken (s : Streams κ Num) (k : κ) : Prop where
  ended : s.outcomes k = []
  fiber : s.fiber k = none
  dangling : k ∉ s.dangling

/-- Where the handling of the complete stream `r` is: it has a fiber that has
not ended, it has ended once, as the whole stream is served, or its fiber went
on behind the close of the stream. -/
inductive Streams.Place (srv : ServerImpl) (env : RouteEnv Num) (s : Streams κ Num) (k : κ)
    (r : Http2Stream) : Prop where
  | waiting (f : HandlerFiber Num) (hfiber : s.fiber k = some f)
      (hcode : ∀ fuel, srv.serve env fuel (.http2 r) = f.job.code srv env fuel f.serving)
      (hended : s.outcomes k = []) (hkept : k ∉ s.dangling)
  | ended (fuel : Nat) (hended : s.outcomes k = [srv.serve env fuel (.http2 r)])
      (hfiber : s.fiber k = none) (hkept : k ∉ s.dangling)
  | dangling (hdangling : k ∈ s.dangling) (hended : s.outcomes k = []) (hfiber : s.fiber k = none)

/-- What the events have brought to a stream, by its phase: before the end the
callback of a POST has the content so far. -/
structure Streams.Follows (s : Streams κ Num) (b : Brought) (k : κ) : Prop where
  idle : s.phase k = .idle → b = ⟨none, [], false⟩ ∧ s.onData k = none
  opened : s.phase k = .opened → ∃ r, b.head = some r ∧ b.ended = false ∧
    s.onData k = if r.method = bytes "POST" then some (r, (r.stream b.chunks).content) else none

/-- The invariant of the front end. -/
structure Streams.Tracks (srv : ServerImpl) (env : κ → RouteEnv Num) (evs : List (StreamEvent κ))
    (s : Streams κ Num) : Prop where
  follows : ∀ k, s.Follows (brought evs k) k
  counted : Counted evs
  taken : s.taken = (completed evs).map (fun c => (c.1, (Incoming.http2 c.2).request))
  untaken : ∀ k, wholeStream evs k = none → s.Untaken k
  place : ∀ k r, wholeStream evs k = some r → s.Place srv (env k) k r
  stops : s.stopped = true ↔ s.dangling ≠ [] ∨ ∃ c ∈ s.ended, returns c.2 = false
  closes : s.dangling = [] ↔ InTime evs
  closed : ∀ k, s.phase k = .closed ↔ .close k ∈ evs

/-- A step has not touched a stream. -/
structure Streams.SameAt (s t : Streams κ Num) (k : κ) : Prop where
  phase : t.phase k = s.phase k
  onData : t.onData k = s.onData k
  fiber : t.fiber k = s.fiber k
  outcomes : t.outcomes k = s.outcomes k
  dangling : k ∈ t.dangling ↔ k ∈ s.dangling

omit [DecidableEq Num] [LuaNumber Num] in
theorem Streams.SameAt.follows {k : κ} {b : Brought} (h : s.SameAt t k) (hf : s.Follows b k) :
    t.Follows b k := by
  constructor
  · rw [h.phase, h.onData]
    exact hf.idle
  · rw [h.phase, h.onData]
    exact hf.opened

omit [DecidableEq Num] [LuaNumber Num] in
theorem Streams.SameAt.untaken {k : κ} (h : s.SameAt t k) (hu : s.Untaken k) : t.Untaken k :=
  ⟨h.outcomes.trans hu.ended, h.fiber.trans hu.fiber, fun hk => hu.dangling (h.dangling.mp hk)⟩

theorem Streams.SameAt.place {k : κ} {r : Http2Stream} (h : s.SameAt t k)
    (hp : s.Place srv (env k) k r) : t.Place srv (env k) k r := by
  cases hp with
  | waiting f hfiber hcode hended hkept =>
      exact .waiting f (h.fiber.trans hfiber) hcode (h.outcomes.trans hended)
        (fun hk => hkept (h.dangling.mp hk))
  | ended fuel hended hfiber hkept =>
      exact .ended fuel (h.outcomes.trans hended) (h.fiber.trans hfiber)
        (fun hk => hkept (h.dangling.mp hk))
  | dangling hdangling hended hfiber =>
      exact .dangling (h.dangling.mpr hdangling) (h.outcomes.trans hended) (h.fiber.trans hfiber)

omit [DecidableEq κ] [DecidableEq Num] [LuaNumber Num] in
/-- Nothing is expected of a stream that has ended. -/
theorem follows_of_done {b : Brought} {k : κ} (hp : s.phase k = .ended ∨ s.phase k = .closed) :
    s.Follows b k := by
  constructor
  · intro h
    rcases hp with hp | hp <;> cases h.symm.trans hp
  · intro h
    rcases hp with hp | hp <;> cases h.symm.trans hp

omit [DecidableEq Num] [LuaNumber Num] in
theorem outcomes_finish (k k' : κ) (o : Outcome Bytes Fault (Serving Num) Unit) (s : Streams κ Num) :
    (s.finish k o).outcomes k' = s.outcomes k' ++ if k = k' then [o] else [] := by
  unfold Streams.finish Streams.outcomes
  rw [List.filterMap_append]
  by_cases hk : k = k' <;> simp [hk]

/-- A process that is there has neither a dangling fiber nor a handling that
did not return. -/
theorem Streams.Tracks.running (h : s.Tracks srv env evs) (hrunning : s.stopped = false) :
    s.dangling = [] ∧ ∀ c ∈ s.ended, returns c.2 = true := by
  have hnot : ¬ (s.dangling ≠ [] ∨ ∃ c ∈ s.ended, returns c.2 = false) := by
    rw [← h.stops, hrunning]
    decide
  obtain ⟨hdangling, hended⟩ := not_or.mp hnot
  refine ⟨not_not.mp hdangling, ?_⟩
  intro c hc
  by_contra hreturns
  exact hended ⟨c, hc, Bool.not_eq_true _ ▸ hreturns⟩

omit [DecidableEq Num] [LuaNumber Num] in
/-- A handling that ends stops a running process just if it does not return. -/
theorem stops_finish {k : κ} (hdangling : s.dangling = [])
    (hreturns : ∀ c ∈ s.ended, returns c.2 = true) (o : Outcome Bytes Fault (Serving Num) Unit) :
    (s.finish k o).stopped = true ↔
      (s.finish k o).dangling ≠ [] ∨ ∃ c ∈ (s.finish k o).ended, returns c.2 = false := by
  have hstopped : (s.finish k o).stopped = !returns o := rfl
  have hended : (s.finish k o).ended = s.ended ++ [(k, o)] := rfl
  have hkept : (s.finish k o).dangling = [] := hdangling
  rw [hstopped, hended, hkept]
  constructor
  · intro ho
    exact .inr ⟨(k, o), List.mem_append_right _ (List.mem_singleton_self _), by simpa using ho⟩
  · rintro (hne | ⟨c, hc, hnot⟩)
    · exact absurd rfl hne
    · rcases List.mem_append.mp hc with hc | hc
      · cases (hreturns c hc).symm.trans hnot
      · rw [List.mem_singleton.mp hc] at hnot
        simp [hnot]

/-- **One more event**, which is tracked if it is at its own stream. -/
theorem Streams.Tracks.concat (h : s.Tracks srv env evs) {e : StreamEvent κ}
    (hsame : ∀ k, e.key ≠ k → s.SameAt t k) (hfollows : t.Follows (brought (evs ++ [e]) e.key) e.key)
    (hkeep : ∀ r, wholeStream evs e.key = some r → wholeStream (evs ++ [e]) e.key = some r)
    (htaken : t.taken = s.taken ++ (if wholeStream evs e.key = none then
      ((wholeStream (evs ++ [e]) e.key).map (fun r => (e.key, (Incoming.http2 r).request))).toList else []))
    (huntaken : wholeStream (evs ++ [e]) e.key = none → t.Untaken e.key)
    (hplace : ∀ r, wholeStream (evs ++ [e]) e.key = some r → t.Place srv (env e.key) e.key r)
    (hstops : t.stopped = true ↔ t.dangling ≠ [] ∨ ∃ c ∈ t.ended, returns c.2 = false)
    (hcloses : t.dangling = [] ↔ InTime (evs ++ [e]))
    (hclosed : t.phase e.key = .closed ↔ .close e.key ∈ evs ++ [e]) : t.Tracks srv env (evs ++ [e]) := by
  have hother : ∀ k, e.key ≠ k → wholeStream (evs ++ [e]) k = wholeStream evs k := by
    intro k hk
    unfold wholeStream
    rw [brought_of_ne evs hk]
  refine ⟨?_, h.counted.concat hkeep, ?_, ?_, ?_, hstops, hcloses, ?_⟩
  · intro k
    by_cases hk : e.key = k
    · exact hk ▸ hfollows
    · rw [brought_of_ne evs hk]
      exact (hsame k hk).follows (h.follows k)
  · rw [htaken, h.taken, completed_concat, List.map_append]
    congr 1
    by_cases hnone : wholeStream evs e.key = none
    · rw [if_pos hnone, if_pos hnone]
      cases wholeStream (evs ++ [e]) e.key <;> rfl
    · rw [if_neg hnone, if_neg hnone]
      rfl
  · intro k hnone
    by_cases hk : e.key = k
    · subst hk
      exact huntaken hnone
    · rw [hother k hk] at hnone
      exact (hsame k hk).untaken (h.untaken k hnone)
  · intro k r hr
    by_cases hk : e.key = k
    · subst hk
      exact hplace r hr
    · rw [hother k hk] at hr
      exact (hsame k hk).place (h.place k r hr)
  · intro k
    by_cases hk : e.key = k
    · subst hk
      exact hclosed
    · rw [(hsame k hk).phase, h.closed, List.mem_append, List.mem_singleton]
      refine ⟨Or.inl, ?_⟩
      rintro (hclose | rfl)
      · exact hclose
      · exact absurd rfl hk

/-- An event of the library that completes no stream. -/
theorem Streams.Tracks.quiet (h : s.Tracks srv env evs)
    {e : StreamEvent κ} (he : e.ofFiber = none) {phase : κ → StreamPhase}
    {onData : κ → Option (Http2Head × Bytes)}
    (hframe : ∀ k, e.key ≠ k → phase k = s.phase k ∧ onData k = s.onData k)
    (hfollows : Streams.Follows { s with phase := phase, onData := onData }
      (brought (evs ++ [e]) e.key) e.key)
    (hwhole : wholeStream (evs ++ [e]) e.key = wholeStream evs e.key)
    (hclosed : phase e.key = .closed ↔ .close e.key ∈ evs ++ [e]) :
    Streams.Tracks srv env (evs ++ [e]) { s with phase := phase, onData := onData } := by
  refine h.concat ?_ hfollows ?_ ?_ ?_ ?_ h.stops ?_ hclosed
  · intro k hk
    exact ⟨(hframe k hk).1, (hframe k hk).2, rfl, rfl, Iff.rfl⟩
  · intro r hr
    exact hwhole.trans hr
  · rw [hwhole]
    cases wholeStream evs e.key <;> exact (List.append_nil _).symm
  · intro hnone
    have hu := h.untaken e.key (hwhole.symm.trans hnone)
    exact ⟨hu.ended, hu.fiber, hu.dangling⟩
  · intro r hr
    cases h.place e.key r (hwhole.symm.trans hr) with
    | waiting f hfiber hcode hended hkept => exact .waiting f hfiber hcode hended hkept
    | ended fuel hended hfiber hkept => exact .ended fuel hended hfiber hkept
    | dangling hdangling hended hfiber => exact .dangling hdangling hended hfiber
  · rw [inTime_concat, ← h.closes]
    show s.dangling = [] ↔ _
    simp [he]

/-- What a callback leaves: a fiber with its job, or a handling that has ended
in it. -/
theorem take_cases (k : κ) (req : Request) (code : RouteCode Num (Option HandlerJob)) (s : Streams κ Num) :
    (∃ job u, code (.start req) = .returned (some job) u ∧
      s.take k req code = { s with
        taken := s.taken ++ [(k, req)]
        fiber := Function.update s.fiber k (some ⟨job, u, false⟩) }) ∨
    ∃ o, (∀ (srv : ServerImpl) (env : RouteEnv Num) fuel,
        (code (.start req)).andThen (jobCode srv env fuel) = o) ∧
      s.take k req code = Streams.finish k o { s with taken := s.taken ++ [(k, req)] } := by
  unfold Streams.take
  cases hcode : code (.start req) with
  | returned job u =>
      cases job with
      | some job => exact .inl ⟨job, u, rfl, rfl⟩
      | none => exact .inr ⟨.returned () u, fun _ _ _ => rfl, rfl⟩
  | threw e u => exact .inr ⟨.threw e u, fun _ _ _ => rfl, rfl⟩
  | died d u => exact .inr ⟨.died d u, fun _ _ _ => rfl, rfl⟩
  | exhausted u => exact .inr ⟨.exhausted u, fun _ _ _ => rfl, rfl⟩

/-- **An event of the library that completes a stream**: a request is made of it
and taken. -/
theorem Streams.Tracks.take (h : s.Tracks srv env evs) (hrunning : s.stopped = false)
    {e : StreamEvent κ} (he : e.ofFiber = none) (hclose : e ≠ .close e.key) {p : StreamPhase}
    (hp : p ≠ .closed) (hopen : s.phase e.key ≠ .closed) {r : Http2Stream}
    (hfollows : (s.setPhase e.key p).Follows (brought (evs ++ [e]) e.key) e.key)
    (hwas : wholeStream evs e.key = none) (hnow : wholeStream (evs ++ [e]) e.key = some r)
    {code : RouteCode Num (Option HandlerJob)}
    (hserve : ∀ fuel, srv.serve (env e.key) fuel (.http2 r) =
      (code (.start (Incoming.http2 r).request)).andThen (jobCode srv (env e.key) fuel)) :
    ((s.setPhase e.key p).take e.key (Incoming.http2 r).request code).Tracks srv env (evs ++ [e]) := by
  obtain ⟨hdangling, hreturns⟩ := h.running hrunning
  obtain ⟨hended, hfiber, -⟩ := h.untaken e.key hwas
  have hkey : (s.setPhase e.key p).phase e.key = p := Function.update_self _ _ _
  have hphase : ∀ k, e.key ≠ k → (s.setPhase e.key p).phase k = s.phase k :=
    fun k hk => Function.update_of_ne (Ne.symm hk) _ _
  have hclosed : p = .closed ↔ .close e.key ∈ evs ++ [e] := by
    rw [List.mem_append, List.mem_singleton, ← h.closed]
    simp [hp, hopen, Ne.symm hclose]
  have hcloses : s.dangling = [] ↔ InTime (evs ++ [e]) := by
    rw [inTime_concat, ← h.closes]
    simp [he]
  have htaken : ∀ req, s.taken ++ [(e.key, req)] = s.taken ++ (if wholeStream evs e.key = none then
      ((some r).map (fun _ => (e.key, req))).toList else []) := by
    intro req
    rw [if_pos hwas]
    rfl
  rcases take_cases e.key (Incoming.http2 r).request code (s.setPhase e.key p) with
    ⟨job, u, hcode, htake⟩ | ⟨o, ho, htake⟩
  · -- the job waits for its fiber
    rw [htake]
    refine h.concat ?_ ?_ ?_ ?_ ?_ ?_ h.stops hcloses ?_
    · intro k hk
      exact ⟨hphase k hk, rfl, Function.update_of_ne (Ne.symm hk) _ _, rfl, Iff.rfl⟩
    · exact ⟨hfollows.idle, hfollows.opened⟩
    · intro r' hr'
      cases hwas.symm.trans hr'
    · rw [hnow]
      exact htaken _
    · intro hnone
      cases hnow.symm.trans hnone
    · intro r' hr'
      obtain rfl := Option.some.inj (hnow.symm.trans hr')
      refine .waiting ⟨job, u, false⟩ (Function.update_self _ _ _) ?_ hended ?_
      · intro fuel
        rw [hserve, hcode]
        rfl
      · show e.key ∉ s.dangling
        rw [hdangling]
        exact List.not_mem_nil
    · show (s.setPhase e.key p).phase e.key = .closed ↔ _
      rw [hkey]
      exact hclosed
  · -- the handling has ended with the callback
    rw [htake]
    refine h.concat ?_ ?_ ?_ ?_ ?_ ?_ ?_ hcloses ?_
    · intro k hk
      refine ⟨hphase k hk, rfl, Function.update_of_ne (Ne.symm hk) _ _, ?_, Iff.rfl⟩
      rw [outcomes_finish, if_neg hk, List.append_nil]
      rfl
    · exact ⟨hfollows.idle, hfollows.opened⟩
    · intro r' hr'
      cases hwas.symm.trans hr'
    · rw [hnow]
      exact htaken _
    · intro hnone
      cases hnow.symm.trans hnone
    · intro r' hr'
      obtain rfl := Option.some.inj (hnow.symm.trans hr')
      refine .ended 0 ?_ (Function.update_self _ _ _) ?_
      · rw [outcomes_finish, if_pos rfl, hserve, ho]
        show s.outcomes e.key ++ [o] = [o]
        rw [hended]
        rfl
      · show e.key ∉ s.dangling
        rw [hdangling]
        exact List.not_mem_nil
    · exact stops_finish hdangling hreturns o
    · show (s.setPhase e.key p).phase e.key = .closed ↔ _
      rw [hkey]
      exact hclosed

omit [DecidableEq κ] in
theorem key_of_ofFiber {e : StreamEvent κ} {k : κ} (he : e.ofFiber = some k) : e.key = k := by
  cases e with
  | request k' r => cases he
  | data k' d => cases he
  | close k' => cases he
  | fiberBegins k' => exact Option.some.inj he
  | fiberEnds k' fuel => exact Option.some.inj he

/-- The fiber of a stream has the job of its handling. -/
theorem Streams.Tracks.fiber (h : s.Tracks srv env evs) {k : κ} {f : HandlerFiber Num}
    (hf : s.fiber k = some f) :
    s.outcomes k = [] ∧ k ∉ s.dangling ∧ ∃ r, wholeStream evs k = some r ∧
      ∀ fuel, srv.serve (env k) fuel (.http2 r) = f.job.code srv (env k) fuel f.serving := by
  cases hr : wholeStream evs k with
  | none => cases (h.untaken k hr).fiber.symm.trans hf
  | some r =>
      cases h.place k r hr with
      | waiting f' hfiber hcode hended hkept =>
          obtain rfl := Option.some.inj (hfiber.symm.trans hf)
          exact ⟨hended, hkept, r, rfl, hcode⟩
      | ended fuel hended hfiber hkept => cases hfiber.symm.trans hf
      | dangling hdangling hended hfiber => cases hfiber.symm.trans hf

/-- **A step of a fiber.** -/
theorem Streams.Tracks.ofFiber (h : s.Tracks srv env evs) {e : StreamEvent κ} {k : κ}
    (he : e.ofFiber = some k) {f : HandlerFiber Num} (hf : s.fiber k = some f)
    (hphase : t.phase = s.phase) (hdata : t.onData = s.onData) (htaken : t.taken = s.taken)
    (hother : ∀ k', k ≠ k' → t.fiber k' = s.fiber k' ∧ t.outcomes k' = s.outcomes k' ∧
      (k' ∈ t.dangling ↔ k' ∈ s.dangling))
    (hplace : ∀ r, (∀ fuel, srv.serve (env k) fuel (.http2 r) = f.job.code srv (env k) fuel f.serving) →
      t.Place srv (env k) k r)
    (hstops : t.stopped = true ↔ t.dangling ≠ [] ∨ ∃ c ∈ t.ended, returns c.2 = false)
    (hcloses : t.dangling = [] ↔ InTime evs ∧ .close k ∉ evs) : t.Tracks srv env (evs ++ [e]) := by
  obtain rfl := key_of_ofFiber he
  obtain ⟨-, -, r, hr, hcode⟩ := h.fiber hf
  have hwhole : wholeStream (evs ++ [e]) e.key = wholeStream evs e.key := by
    unfold wholeStream
    rw [brought_ofFiber evs he]
  have hnotclose : e ≠ .close e.key := by
    intro heq
    rw [heq] at he
    cases he
  refine h.concat ?_ ?_ ?_ ?_ ?_ ?_ hstops ?_ ?_
  · intro k' hk
    obtain ⟨hfiber, houtcomes, hdangling⟩ := hother k' hk
    exact ⟨congrFun hphase k', congrFun hdata k', hfiber, houtcomes, hdangling⟩
  · rw [brought_ofFiber evs he]
    obtain ⟨hidle, hopened⟩ := h.follows e.key
    constructor
    · rw [hphase, hdata]
      exact hidle
    · rw [hphase, hdata]
      exact hopened
  · intro r' hr'
    exact hwhole.trans hr'
  · rw [hr]
    exact htaken.trans (List.append_nil _).symm
  · intro hnone
    cases hr.symm.trans (hwhole.symm.trans hnone)
  · intro r' hr'
    obtain rfl := Option.some.inj (hr.symm.trans (hwhole.symm.trans hr'))
    exact hplace r hcode
  · rw [inTime_concat, hcloses]
    simp [he]
  · rw [hphase, h.closed, List.mem_append, List.mem_singleton]
    exact ⟨Or.inl, fun hc => hc.resolve_right (Ne.symm hnotclose)⟩

/-- A fiber that goes on behind the close of its stream. -/
theorem tracks_dangle (h : s.Tracks srv env evs) (hrunning : s.stopped = false) {e : StreamEvent κ}
    {k : κ} (he : e.ofFiber = some k) {f : HandlerFiber Num} (hf : s.fiber k = some f)
    (hclosed : s.phase k = .closed) : (s.dangle k).Tracks srv env (evs ++ [e]) := by
  obtain ⟨hnone, -⟩ := h.running hrunning
  obtain ⟨hended, -, -⟩ := h.fiber hf
  have hdangling : (s.dangle k).dangling = [k] := by
    show s.dangling ++ [k] = [k]
    rw [hnone]
    rfl
  refine h.ofFiber he hf rfl rfl rfl ?_ ?_ ?_ ?_
  · intro k' hk
    refine ⟨Function.update_of_ne (Ne.symm hk) _ _, rfl, ?_⟩
    rw [hdangling, hnone]
    simp [Ne.symm hk]
  · intro r _
    refine .dangling ?_ hended (Function.update_self _ _ _)
    rw [hdangling]
    exact List.mem_singleton_self k
  · rw [hdangling]
    exact ⟨fun _ => .inl (List.cons_ne_nil _ _), fun _ => rfl⟩
  · rw [hdangling]
    refine ⟨fun hnil => absurd hnil (List.cons_ne_nil _ _), ?_⟩
    rintro ⟨-, hnot⟩
    exact absurd ((h.closed k).mp hclosed) hnot

/-- The first stretch of a fiber. -/
theorem tracks_fiberBegins (h : s.Tracks srv env evs) (hrunning : s.stopped = false) {k : κ}
    (hstep : s.fiberBegins k = some t) : t.Tracks srv env (evs ++ [.fiberBegins k]) := by
  unfold Streams.fiberBegins at hstep
  obtain ⟨f, hf, hstep⟩ := Option.bind_eq_some_iff.mp hstep
  obtain ⟨-, hstep⟩ := Option.ite_none_left_eq_some.mp hstep
  by_cases hclosed : s.phase k = .closed
  · rw [if_pos hclosed] at hstep
    obtain rfl := Option.some.inj hstep
    exact tracks_dangle h hrunning rfl hf hclosed
  · rw [if_neg hclosed] at hstep
    obtain rfl := Option.some.inj hstep
    obtain ⟨hended, hkept, -⟩ := h.fiber hf
    refine h.ofFiber rfl hf rfl rfl rfl ?_ ?_ h.stops ?_
    · intro k' hk
      exact ⟨Function.update_of_ne (Ne.symm hk) _ _, rfl, Iff.rfl⟩
    · intro r hcode
      exact .waiting { f with begun := true } (Function.update_self _ _ _) hcode hended hkept
    · rw [← h.closes, ← h.closed]
      exact ⟨fun hnil => ⟨hnil, hclosed⟩, And.left⟩

/-- The last stretch of a fiber. -/
theorem tracks_fiberEnds (h : s.Tracks srv env evs) (hrunning : s.stopped = false) {k : κ} {fuel : Nat}
    (hstep : s.fiberEnds srv env k fuel = some t) : t.Tracks srv env (evs ++ [.fiberEnds k fuel]) := by
  unfold Streams.fiberEnds at hstep
  obtain ⟨f, hf, hstep⟩ := Option.bind_eq_some_iff.mp hstep
  obtain ⟨-, hstep⟩ := Option.ite_none_left_eq_some.mp hstep
  by_cases hclosed : s.phase k = .closed
  · rw [if_pos hclosed] at hstep
    obtain rfl := Option.some.inj hstep
    exact tracks_dangle h hrunning rfl hf hclosed
  · rw [if_neg hclosed] at hstep
    obtain rfl := Option.some.inj hstep
    obtain ⟨hnone, hreturns⟩ := h.running hrunning
    obtain ⟨hended, hkept, -⟩ := h.fiber hf
    refine h.ofFiber rfl hf rfl rfl rfl ?_ ?_ (stops_finish hnone hreturns _) ?_
    · intro k' hk
      refine ⟨Function.update_of_ne (Ne.symm hk) _ _, ?_, Iff.rfl⟩
      rw [outcomes_finish, if_neg hk, List.append_nil]
    · intro r hcode
      refine .ended fuel ?_ (Function.update_self _ _ _) hkept
      rw [outcomes_finish, if_pos rfl, hended, hcode]
      rfl
    · show s.dangling = [] ↔ _
      rw [← h.closes, ← h.closed]
      exact ⟨fun hnil => ⟨hnil, hclosed⟩, And.left⟩

/-- The head of a stream that is new: what is not a POST is complete with it. -/
theorem tracks_request (h : s.Tracks srv env evs) (hrunning : s.stopped = false) {k : κ}
    {r : Http2Head} (hidle : s.phase k = .idle) :
    ((s.setPhase k .opened).request srv env k r).Tracks srv env (evs ++ [.request k r]) := by
  obtain ⟨hb, hdata⟩ := (h.follows k).idle hidle
  have hnow : brought (evs ++ [.request k r]) k = ⟨some r, [], false⟩ := by
    rw [brought_request, hb]
    rfl
  have hwas : wholeStream evs k = none := by
    unfold wholeStream
    rw [hb]
    rfl
  have hphase : (s.setPhase k .opened).phase k = .opened := Function.update_self _ _ _
  have hopen : s.phase k ≠ .closed := by
    rw [hidle]
    decide
  unfold Streams.request
  by_cases hpost : r.method = bytes "POST"
  · have hget : ¬ r.method = bytes "GET" := fun h => get_ne_post (h.symm.trans hpost)
    rw [if_neg hget, if_pos hpost]
    refine h.quiet rfl ?_ ?_ ?_ ?_
    · intro k' hk
      exact ⟨Function.update_of_ne (Ne.symm hk) _ _, Function.update_of_ne (Ne.symm hk) _ _⟩
    · show Streams.Follows _ (brought (evs ++ [.request k r]) k) k
      rw [hnow]
      refine ⟨fun hp => ?_, fun _ => ⟨r, rfl, rfl, ?_⟩⟩
      · cases hphase.symm.trans hp
      · rw [if_pos hpost]
        exact Function.update_self _ _ _
    · show wholeStream (evs ++ [.request k r]) k = wholeStream evs k
      rw [hwas]
      unfold wholeStream
      rw [hnow]
      simp [hpost]
    · show (s.setPhase k .opened).phase k = .closed ↔ .close k ∈ evs ++ [.request k r]
      rw [hphase, List.mem_append, ← h.closed]
      simp [hopen]
  · have hwhole : wholeStream (evs ++ [.request k r]) k = some (r.stream []) := by
      unfold wholeStream
      rw [hnow]
      simp [hpost]
    have hfollows : (s.setPhase k .opened).Follows (brought (evs ++ [.request k r]) k) k := by
      rw [hnow]
      refine ⟨fun hp => ?_, fun _ => ⟨r, rfl, rfl, ?_⟩⟩
      · cases hphase.symm.trans hp
      · rw [if_neg hpost]
        exact hdata
    have hreq : (Incoming.http2 (r.stream [])).request = .ofHttp2 (r.stream []) none :=
      congrArg (Request.ofHttp2 _) (if_neg hpost)
    have hclose : StreamEvent.request k r ≠ .close k := by simp
    by_cases hget : r.method = bytes "GET"
    · rw [if_pos hget, ← hreq]
      refine h.take hrunning (e := .request k r) rfl hclose (by decide) hopen hfollows hwas hwhole ?_
      intro fuel
      rw [hreq]
      exact (if_pos hget).trans (route_callback srv (env k) fuel _ _)
    · rw [if_neg hget, if_neg hpost, ← hreq]
      refine h.take hrunning (e := .request k r) rfl hclose (by decide) hopen hfollows hwas hwhole ?_
      intro fuel
      rw [hreq]
      exact ((if_neg hget).trans (if_neg hpost)).trans (notImplemented_jobCode srv (env k) fuel _)

/-- The data of an open stream: the buffer of a POST takes a chunk, and the
empty chunk completes the stream. -/
theorem tracks_data (h : s.Tracks srv env evs) (hrunning : s.stopped = false) {k : κ} {d : Bytes}
    (hopen : s.phase k = .opened) :
    ((s.setPhase k (if d = [] then .ended else .opened)).data srv env k d).Tracks srv env
      (evs ++ [.data k d]) := by
  obtain ⟨r, hhead, hended, hdata⟩ := (h.follows k).opened hopen
  have hphase : ∀ p, (s.setPhase k p).phase k = p := fun p => Function.update_self _ _ _
  have hframe : ∀ p k', k ≠ k' → (s.setPhase k p).phase k' = s.phase k' :=
    fun p k' hk => Function.update_of_ne (Ne.symm hk) _ _
  have hnot : s.phase k ≠ .closed := by
    rw [hopen]
    decide
  have hphase' : (if d = [] then StreamPhase.ended else .opened) ≠ .closed := by
    by_cases hd : d = []
    · rw [if_pos hd]
      decide
    · rw [if_neg hd]
      decide
  have hclosed : ∀ p, p ≠ StreamPhase.closed →
      ((s.setPhase k p).phase k = .closed ↔ .close k ∈ evs ++ [.data k d]) := by
    intro p hp
    rw [hphase, List.mem_append, ← h.closed]
    simp [hp, hnot]
  unfold Streams.data
  rw [show (s.setPhase k (if d = [] then .ended else .opened)).onData k = s.onData k from rfl, hdata]
  by_cases hpost : r.method = bytes "POST"
  · rw [if_pos hpost]
    by_cases hd : d = []
    · subst hd
      have hwhole : wholeStream (evs ++ [.data k []]) k = some (r.stream (brought evs k).chunks) := by
        unfold wholeStream
        rw [brought_end]
        simp [hhead, hpost]
      have hwas : wholeStream evs k = none := by
        unfold wholeStream
        simp [hhead, hpost, hended]
      have hget : ¬ r.method = bytes "GET" := fun h => get_ne_post (h.symm.trans hpost)
      have hreq : (Incoming.http2 (r.stream (brought evs k).chunks)).request =
          .ofHttp2 (r.stream []) (some (r.stream (brought evs k).chunks).content) :=
        congrArg (Request.ofHttp2 _) (if_pos hpost)
      dsimp only
      rw [if_pos rfl, if_pos (show ([] : Bytes).length = 0 from rfl), ← hreq]
      refine h.take hrunning (e := .data k []) rfl (by simp) (by decide) hnot
        (follows_of_done (.inl (hphase _))) hwas hwhole ?_
      intro fuel
      rw [hreq]
      exact ((if_neg hget).trans (if_pos hpost)).trans (route_callback srv (env k) fuel _ _)
    · have hlen : ¬ d.length = 0 := fun h => hd (List.length_eq_zero_iff.mp h)
      have hcontent : (r.stream ((brought evs k).chunks ++ [⟨d, hd⟩])).content =
          (r.stream (brought evs k).chunks).content ++ d := List.foldl_append
      dsimp only
      rw [if_neg hlen, if_neg hd]
      refine h.quiet rfl ?_ ?_ ?_ (hclosed _ (by decide))
      · intro k' hk
        exact ⟨hframe _ k' hk, Function.update_of_ne (Ne.symm hk) _ _⟩
      · show Streams.Follows _ (brought (evs ++ [.data k d]) k) k
        rw [brought_chunk evs k hd]
        refine ⟨fun hp => ?_, fun _ => ⟨r, hhead, hended, ?_⟩⟩
        · cases (hphase _).symm.trans hp
        · rw [if_pos hpost, hcontent]
          exact Function.update_self _ _ _
      · show wholeStream (evs ++ [.data k d]) k = wholeStream evs k
        unfold wholeStream
        rw [brought_chunk evs k hd]
        simp [hhead, hpost, hended]
  · rw [if_neg hpost]
    refine h.quiet rfl ?_ ?_ ?_ (hclosed _ hphase')
    · intro k' hk
      exact ⟨hframe _ k' hk, rfl⟩
    · show Streams.Follows _ (brought (evs ++ [.data k d]) k) k
      by_cases hd : d = []
      · rw [if_pos hd]
        exact follows_of_done (.inl (hphase _))
      · rw [brought_chunk evs k hd, if_neg hd]
        refine ⟨fun hp => ?_, fun _ => ⟨r, hhead, hended, ?_⟩⟩
        · cases (hphase _).symm.trans hp
        · rw [if_neg hpost]
          exact hdata.trans (if_neg hpost)
    · show wholeStream (evs ++ [.data k d]) k = wholeStream evs k
      unfold wholeStream
      by_cases hd : d = []
      · subst hd
        rw [brought_end]
        simp [hhead, hpost]
      · rw [brought_chunk evs k hd]
        simp [hhead, hpost]

/-- The close of a stream leaves its fiber. -/
theorem tracks_close (h : s.Tracks srv env evs) (k : κ) :
    Streams.Tracks srv env (evs ++ [.close k])
      { s.setPhase k .closed with onData := Function.update s.onData k none } := by
  have hphase : (s.setPhase k .closed).phase k = .closed := Function.update_self _ _ _
  refine h.quiet rfl ?_ (follows_of_done (.inr hphase)) ?_ ?_
  · intro k' hk
    exact ⟨Function.update_of_ne (Ne.symm hk) _ _, Function.update_of_ne (Ne.symm hk) _ _⟩
  · show wholeStream (evs ++ [.close k]) k = wholeStream evs k
    unfold wholeStream
    rw [brought_close]
  · exact ⟨fun _ => List.mem_append_right _ (List.mem_singleton_self _), fun _ => hphase⟩

/-- **One event keeps the invariant.** -/
theorem tracks_step (h : s.Tracks srv env evs) {e : StreamEvent κ}
    (hstep : (streams srv env).step s e = some t) : t.Tracks srv env (evs ++ [e]) := by
  obtain ⟨hstopped, hstep⟩ := Option.ite_none_left_eq_some.mp hstep
  have hrunning : s.stopped = false := Bool.not_eq_true _ ▸ hstopped
  cases e with
  | request k r =>
      obtain ⟨hidle, rfl⟩ := Option.ite_some_none_eq_some.mp hstep
      exact tracks_request h hrunning hidle
  | data k d =>
      obtain ⟨hopen, rfl⟩ := Option.ite_some_none_eq_some.mp hstep
      exact tracks_data h hrunning hopen
  | close k =>
      obtain ⟨-, rfl⟩ := Option.ite_some_none_eq_some.mp hstep
      exact tracks_close h k
  | fiberBegins k => exact tracks_fiberBegins h hrunning hstep
  | fiberEnds k fuel => exact tracks_fiberEnds h hrunning hstep

theorem tracks_init : (streams (κ := κ) srv env).init.Tracks srv env [] where
  follows := by
    intro k
    refine ⟨fun _ => ⟨rfl, rfl⟩, fun h => ?_⟩
    cases h
  counted := by
    refine ⟨fun k r => ⟨fun h => ?_, fun h => ?_⟩, List.nodup_nil⟩
    · cases h
    · cases h
  taken := rfl
  untaken := fun _ _ => ⟨rfl, rfl, List.not_mem_nil⟩
  place := by
    intro k r hr
    cases hr
  stops := by simp [streams]
  closes := ⟨fun _ => List.Pairwise.nil, fun _ => rfl⟩
  closed := by simp [streams]

theorem tracks_run (evs : List (StreamEvent κ)) {s : Streams κ Num}
    (hrun : (streams srv env).run evs = some s) : s.Tracks srv env evs := by
  induction evs using List.reverseRecOn generalizing s with
  | nil =>
      cases hrun
      exact tracks_init
  | append_singleton evs e ih =>
      rw [Machine.run_concat] at hrun
      obtain ⟨s', hs', hstep⟩ := Option.bind_eq_some_iff.mp hrun
      exact tracks_step (ih hs') hstep

/-- **The front end handles the complete streams.**  In every run, whatever the
order in which the streams of all connections and the fibers of their jobs take
their steps: requests are made of the streams that got complete, each one once,
in the order in which they did, and a stream is among them exactly when all of
it has arrived.  Each of them has ended once, as the whole stream is served, with
its own chunks in their order, or has a fiber with what is left to do of that,
or its fiber went on behind the close of the stream; nothing has been done for
any other stream.  The process is gone just if a handling has not returned or a
fiber went on behind a close, and no fiber did that just if none was late. -/
theorem streams_handled (hrun : (streams srv env).run evs = some s) :
    s.taken = (completed evs).map (fun c => (c.1, (Incoming.http2 c.2).request)) ∧
    ((completed evs).map Prod.fst).Nodup ∧
    (∀ k r, (k, r) ∈ completed evs ↔ wholeStream evs k = some r) ∧
    (∀ k r, (k, r) ∈ completed evs → s.Place srv (env k) k r) ∧
    (∀ k, wholeStream evs k = none → s.Untaken k) ∧
    (s.stopped = true ↔ s.dangling ≠ [] ∨ ∃ c ∈ s.ended, returns c.2 = false) ∧
    (s.dangling = [] ↔ InTime evs) := by
  have h := tracks_run evs hrun
  refine ⟨h.taken, h.counted.nodup, h.counted.mem, ?_, h.untaken, h.stops, h.closes⟩
  intro k r hr
  exact h.place k r ((h.counted.mem k r).mp hr)

end Run

/-- The head of a stream without headers. -/
def plainHead (method : Bytes) : Http2Head :=
  ⟨method, bytes "http", bytes "h", bytes "/a", [], [], bytes "::1", false⟩

/-- A GET arrives between the chunks of two POSTs, and its fiber ends first; the
second POST ends before the first one, whose fiber has not begun at the end. -/
def threeStreams : List (StreamEvent Nat) :=
  [.request 1 (plainHead (bytes "POST")), .data 1 (bytes "a"), .request 3 (plainHead (bytes "POST")),
    .data 3 (bytes "x"), .request 5 (plainHead (bytes "GET")), .data 1 (bytes "b"),
    .data 3 (bytes "y"), .data 3 [], .fiberBegins 3, .fiberBegins 5, .data 1 [], .fiberEnds 5 0,
    .close 5, .fiberEnds 3 0]

example : (completed threeStreams).map (fun c => (c.1, c.2.content)) =
    [(5, []), (3, bytes "xy"), (1, bytes "ab")] := by decide

/-- The front end of a server with one route, whose Lua states cannot be made,
takes the three streams. -/
theorem streams_handled_three :
    let srv := ServerImpl.withRoutes [(bytes "/", bytes "handler")]
    let env : Nat → RouteEnv Int := fun _ => { engine :=
      { getState := .error [], call := fun H _ _ => ⟨H, .returned []⟩ } }
    ∃ s, (streams srv env).run threeStreams = some s ∧
      (s.ended.map (fun c => (c.1, returns c.2)), s.dangling) = ([(5, true), (3, true)], []) ∧
      s.taken = (completed threeStreams).map (fun c => (c.1, (Incoming.http2 c.2).request)) ∧
      ((completed threeStreams).map Prod.fst).Nodup ∧
      (∀ k r, (k, r) ∈ completed threeStreams ↔ wholeStream threeStreams k = some r) ∧
      (∀ k r, (k, r) ∈ completed threeStreams → s.Place srv (env k) k r) ∧
      (∀ k, wholeStream threeStreams k = none → s.Untaken k) ∧
      (s.stopped = true ↔ s.dangling ≠ [] ∨ ∃ c ∈ s.ended, returns c.2 = false) ∧
      (s.dangling = [] ↔ InTime threeStreams) := by
  intro srv env
  have hrun : ((streams srv env).run threeStreams).map
      (fun s => (s.ended.map (fun c => (c.1, returns c.2)), s.dangling)) =
        some ([(5, true), (3, true)], []) := by decide +kernel
  obtain ⟨s, hs, hended⟩ := Option.map_eq_some_iff.mp hrun
  exact ⟨s, hs, hended, streams_handled hs⟩

end Petrel
