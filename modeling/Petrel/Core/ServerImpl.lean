/-
  Petrel.Core.ServerImpl — the server, its routes and the way of a request.

  A front end looks up the route of a request and calls it.  A route made by
  `add_route` hands GET and POST requests to a Lua handler in a fiber and
  answers every other method with 501; the HTTP/2 front end answers other
  methods with 501 itself.  Responses leave from seven places.

  A metric pointer is null until the ctor or a registration sets it.  The
  ctor sets `m_metric_errors` twice and `m_metric_not_impl` never.

  Main results:
    * `ok_booted` — what holds of the server after every bootstrap, the null
      pointer among it.
    * `luaRoute_replied`, `luaRoute_stuck` — which requests a route answers, and
      what it records.
    * `request_answered_once` — both, for every set of Lua routes.
-/

import Petrel.Core.FileCache
import Petrel.Core.LuaEngine
import Petrel.Core.Router
import Petrel.Metrics.Registry

namespace Petrel

open Framework

/-! ## §1. The server and its routes. -/

/-- A `route_func_type`: the default-constructed function, the router's
default, and the lambdas of the two kinds of routes with what they capture. -/
inductive RouteFunc where
  | empty
  | notFound
  | lua (func : Bytes) (metricReq metricErr metricTimes : MetricId)
  | directory (path dir : Bytes) (metricReq metricErr metricTimes : MetricId)
  deriving DecidableEq

instance : Inhabited RouteFunc := ⟨.empty⟩

/-- `server_impl`, with its metric pointers. -/
structure ServerImpl where
  router : Router RouteFunc := Router.new .notFound
  registry : Registry := {}
  fileCache : FileCache := {}
  numRoutes : Nat := 0
  metricRequests : Option MetricId := none
  metricErrors : Option MetricId := none
  metricNotImpl : Option MetricId := none
  metricTimes : Option MetricId := none

def ServerImpl.registerMetric (srv : ServerImpl) (T : MetricKind) (name : Bytes) :
    ServerImpl × MetricId :=
  let (registry, m) := srv.registry.registerMetric T name
  ({ srv with registry := registry }, m)

/-- The metrics of the ctor. -/
def ServerImpl.new : ServerImpl :=
  let (srv, m) := ({} : ServerImpl).registerMetric .meter (bytes "requests")
  let srv := { srv with metricRequests := some m }
  let (srv, m) := srv.registerMetric .meter (bytes "errors")
  let srv := { srv with metricErrors := some m }
  let (srv, m) := srv.registerMetric .meter (bytes "not_implemented")
  -- the source assigns `m_metric_errors` here as well
  let srv := { srv with metricErrors := some m }
  let (srv, m) := srv.registerMetric .timer (bytes "times")
  { srv with metricTimes := some m }

/-- The end of both registrations: what `add_route` of the router throws
leaves before the route is counted. -/
def ServerImpl.insertRoute (srv : ServerImpl) (path : Bytes) (func : RouteFunc) :
    Except String Unit × ServerImpl :=
  match srv.router.addRoute path func with
  | (.ok (), router) => (.ok (), { srv with router := router, numRoutes := srv.numRoutes + 1 })
  | (.error e, router) => (.error e, { srv with router := router })

/-- `server_impl::add_route`. -/
def ServerImpl.addRoute (srv : ServerImpl) (path func : Bytes) : Except String Unit × ServerImpl :=
  let (srv, metricReq) := srv.registerMetric .meter (bytes "requests_" ++ func)
  let (srv, metricErr) := srv.registerMetric .meter (bytes "errors_" ++ func)
  let (srv, metricTimes) := srv.registerMetric .timer (bytes "times_" ++ func)
  srv.insertRoute path (.lua func metricReq metricErr metricTimes)

/-- `server_impl::add_directory_route`; `node` is what `dir` leads to. -/
def ServerImpl.addDirectoryRoute (srv : ServerImpl) (path dir : Bytes) (node : Option FsNode) :
    Except String Unit × ServerImpl :=
  match srv.fileCache.addDirectory dir node with
  -- without the directory there is no route
  | (false, fileCache) => (.ok (), { srv with fileCache := fileCache })
  | (true, fileCache) =>
      let srv := { srv with fileCache := fileCache }
      let (srv, metricReq) := srv.registerMetric .meter (bytes "requests_static_files")
      let (srv, metricErr) := srv.registerMetric .meter (bytes "errors_static_files")
      let (srv, metricTimes) := srv.registerMetric .timer (bytes "times_static_files")
      srv.insertRoute path (.directory path dir metricReq metricErr metricTimes)

/-- What happens to the server before it starts: the bootstrap function calls
`petrel.add_route` and `petrel.add_directory_route`, and the refresh thread of
the file cache runs already. -/
inductive BootEvent where
  | addRoute (path func : Bytes)
  | addDirectoryRoute (path dir : Bytes) (node : Option FsNode)
  | refresh (u : FileUpdate Bytes CachedFile)

/-- `if (s[s.size() - 1] != '/') s += '/'`, for a string that is not empty. -/
def withSlash (s : Bytes) : Bytes := if s.getLast? = some (byte '/') then s else s ++ [byte '/']

/-- The functions of the Lua library.  An exception ends the call and leaves
the server as it is then. -/
def ServerImpl.boot (srv : ServerImpl) : BootEvent → ServerImpl
  | .addRoute path func => (srv.addRoute path func).2
  | .addDirectoryRoute path dir node =>
      (srv.addDirectoryRoute (withSlash path) (withSlash dir) node).2
  | .refresh u =>
      -- no io service is registered yet, so nothing is posted
      { srv with fileCache := { srv.fileCache with
          fileMap := Function.update srv.fileCache.fileMap u.name u.file } }

/-- The server after its bootstrap. -/
def ServerImpl.booted (events : List BootEvent) : ServerImpl :=
  events.foldl ServerImpl.boot ServerImpl.new

/-! ## §2. The route functions. -/

/-- What a request meets outside of this code: the environment of the Lua
engine, whether `fiber_cache::run` can make a fiber, whether the request is
among those whose time is measured, and the answers of `get_file`. -/
structure RouteEnv (Num : Type) where
  engine : EngineEnv Num
  runFiber : Except Bytes Unit := .ok ()
  sampled : Bool := false
  getFile : Bytes → Option CachedFile := fun _ => none

/-- The state of a route function; `recorded` lists the metric objects that
were incremented or updated. -/
structure Serving (Num : Type) where
  handling : Handling Num
  recorded : List MetricId := []

/-- Code of a route function. -/
abbrev RouteCode (Num α : Type) := Code Bytes Fault (Serving Num) α

section Routes

variable {Num : Type} [DecidableEq Num] [LuaNumber Num]

/-- Code of `handle_request`. -/
def onHandling {α : Type} (x : EngineCode Num α) : RouteCode Num α :=
  Code.zoom (fun s => s.handling) (fun h s => { s with handling := h }) x

omit [DecidableEq Num] [LuaNumber Num] in
@[simp] theorem onHandling_apply {α : Type} (x : EngineCode Num α) (s : Serving Num) :
    onHandling x s = (x s.handling).mapState (fun h => { s with handling := h }) := rfl

/-- A response sent by a route function itself. -/
def respond (x : Code Bytes Fault Request Unit) : RouteCode Num Unit := onHandling (onRequest x)

/-- `m->increment()` or `m->update(..)` through a metric pointer. -/
def record (m : Option MetricId) : RouteCode Num Unit :=
  match m with
  | some id => Code.modify (fun s => { s with recorded := s.recorded ++ [id] })
  | none => Code.die .nullDereference

/-- Code in the scope of a `timer::duration`, whose dtor updates the timers. -/
def timed (sampled : Bool) (timers : List (Option MetricId)) (x : RouteCode Num Unit) :
    RouteCode Num Unit :=
  let update : RouteCode Num Unit := if sampled then timers.forM record else pure ()
  x.catching (fun e => do update; Code.throw e) >>= fun _ => update

/-- The two catch blocks of the route of a Lua handler. -/
def ServerImpl.failRequest (srv : ServerImpl) (metricErr : MetricId) : RouteCode Num Unit := do
  record srv.metricErrors
  record (some metricErr)
  respond (sendErrorResponse 500)

/-- The fiber of a request.  An exception that leaves it ends the process. -/
def ServerImpl.requestFiber (srv : ServerImpl) (env : RouteEnv Num) (fuel : Nat) (func : Bytes)
    (metricErr : MetricId) : RouteCode Num Unit :=
  ((onHandling (handleRequest env.engine fuel func)).catching
    (fun _ => srv.failRequest metricErr)).catching (fun _ => Code.die .uncaught)

/-- The route function of `add_route`. -/
def ServerImpl.luaRoute (srv : ServerImpl) (env : RouteEnv Num) (fuel : Nat) (func : Bytes)
    (metricReq metricErr metricTimes : MetricId) : RouteCode Num Unit := do
  let s ← Code.get
  if s.handling.req.method = .get ∨ s.handling.req.method = .post then
    record srv.metricRequests
    record (some metricReq)
    timed env.sampled [srv.metricTimes, some metricTimes]
      ((match env.runFiber with
        | .ok () => srv.requestFiber env fuel func metricErr
        | .error e => Code.throw e : RouteCode Num Unit).catching
          (fun _ => srv.failRequest metricErr))
  else
    -- a method that Lua routes do not support
    record srv.metricNotImpl
    respond (sendErrorResponse 501)

/-- `find_static_file`. -/
def findStaticFile (env : RouteEnv Num) (dir path reqPath : Bytes) :
    RouteCode Num (Option CachedFile) :=
  match reqPath.getLast? with
  | none => Code.die .badIndex
  | some c =>
      -- a directory is not looked up
      if c = byte '/' then pure none
      -- `substr` of a position behind the end
      else if reqPath.length < path.length then Code.throw (bytes "basic_string::substr")
      else pure (env.getFile (dir ++ reqPath.drop path.length))

/-- The end of a directory route that has no file. -/
def ServerImpl.noFile (srv : ServerImpl) (metricErr : MetricId) : RouteCode Num Unit := do
  record srv.metricErrors
  record (some metricErr)
  respond (sendErrorResponse 404)

/-- The route function of `add_directory_route`. -/
def ServerImpl.directoryRoute (srv : ServerImpl) (env : RouteEnv Num) (path dir : Bytes)
    (metricReq metricErr metricTimes : MetricId) : RouteCode Num Unit := do
  let s ← Code.get
  if s.handling.req.method = .get then
    timed env.sampled [srv.metricTimes, some metricTimes] do
      match ← findStaticFile env dir path s.handling.req.path with
      | some file =>
          respond (sendResponse 200 (file.body env.engine.behind))
          -- counted when the response is sent
          record srv.metricRequests
          record (some metricReq)
      | none => srv.noFile metricErr
  else
    srv.noFile metricErr

/-- Call a route function. -/
def ServerImpl.route (srv : ServerImpl) (env : RouteEnv Num) (fuel : Nat) :
    RouteFunc → RouteCode Num Unit
  | .empty => Code.die .badCall
  | .notFound => respond (sendErrorResponse 404)
  | .lua func metricReq metricErr metricTimes =>
      srv.luaRoute env fuel func metricReq metricErr metricTimes
  | .directory path dir metricReq metricErr metricTimes =>
      srv.directoryRoute env path dir metricReq metricErr metricTimes

/-- What arrives at a front end. -/
inductive Incoming where
  | http (r : HttpRequest)
  | http2 (r : Http2Stream)

/-- A request object that has just been made. -/
def Serving.start (req : Request) : Serving Num := { handling := { req := req } }

/-- `session::start` for one request, and the handler of the HTTP/2 server. -/
def ServerImpl.serve (srv : ServerImpl) (env : RouteEnv Num) (fuel : Nat) :
    Incoming → Outcome Bytes Fault (Serving Num) Unit
  | .http r => srv.route env fuel (srv.router.findRoute r.path) (.start (.ofHttp r))
  | .http2 r =>
      if r.method = bytes "GET" then
        srv.route env fuel (srv.router.findRoute r.rawPath) (.start (.ofHttp2 r none))
      else if r.method = bytes "POST" then
        srv.route env fuel (srv.router.findRoute r.rawPath) (.start (.ofHttp2 r (some r.content)))
      else
        (do record srv.metricNotImpl
            respond (sendErrorResponse 501) : RouteCode Num Unit) (.start (.ofHttp2 r none))

/-- The request object made of what arrived. -/
def Incoming.request : Incoming → Request
  | .http r => .ofHttp r
  | .http2 r => .ofHttp2 r (if r.method = bytes "POST" then some r.content else none)

/-- The route function a request is sent to: none where the HTTP/2 front end
does not look for one. -/
def ServerImpl.routeOf (srv : ServerImpl) : Incoming → Option RouteFunc
  | .http r => some (srv.router.findRoute r.path)
  | .http2 r =>
      if r.method = bytes "GET" ∨ r.method = bytes "POST" then some (srv.router.findRoute r.rawPath)
      else none

theorem fresh_request (inc : Incoming) : inc.request.Fresh := by
  cases inc with
  | http r => exact fresh_ofHttp r
  | http2 r => exact fresh_ofHttp2 r _

theorem get_ne_post : bytes "GET" ≠ bytes "POST" := by decide

/-- The handler of either front end calls the route, or answers itself. -/
theorem serve_eq (srv : ServerImpl) (env : RouteEnv Num) (fuel : Nat) (inc : Incoming) :
    srv.serve env fuel inc =
      match srv.routeOf inc with
      | some func => srv.route env fuel func (.start inc.request)
      | none => (do record srv.metricNotImpl
                    respond (sendErrorResponse 501) : RouteCode Num Unit) (.start inc.request) := by
  cases inc with
  | http r => rfl
  | http2 r =>
      unfold ServerImpl.serve ServerImpl.routeOf Incoming.request
      by_cases hget : r.method = bytes "GET"
      · have hpost : ¬ r.method = bytes "POST" := fun h => get_ne_post (hget.symm.trans h)
        simp only [if_pos hget, if_neg hpost, if_pos (Or.inl hget)]
      · by_cases hpost : r.method = bytes "POST"
        · simp only [if_neg hget, if_pos hpost, if_pos (Or.inr hpost)]
        · simp only [if_neg hget, if_neg hpost, if_neg (not_or.mpr ⟨hget, hpost⟩)]

end Routes

/-! ## §4. What the bootstrap keeps. -/

/-- The routes have `P`, each under its path, and of the metric pointers of
the server all but one are set. -/
structure ServerImpl.Ok (P : Bytes → RouteFunc → Prop) (srv : ServerImpl) : Prop where
  entry : ∀ q func, entries srv.router.set.root q = some func → P q func
  defaultFunc : srv.router.defaultFunc = .notFound
  requests : srv.metricRequests.isSome = true
  errors : srv.metricErrors.isSome = true
  times : srv.metricTimes.isSome = true
  notImpl : srv.metricNotImpl = none

/-- What the event puts into the router has `P`. -/
def BootEvent.Admits (P : Bytes → RouteFunc → Prop) : BootEvent → Prop
  | .addRoute path func => ∀ a b c, P path (.lua func a b c)
  | .addDirectoryRoute path dir _ =>
      ∀ a b c, P (withSlash path) (.directory (withSlash path) (withSlash dir) a b c)
  | .refresh _ => True

section Booted

variable {P : Bytes → RouteFunc → Prop} {srv : ServerImpl}

theorem ok_new : ServerImpl.new.Ok P where
  entry := by
    intro q func h
    have hfresh : entries ServerImpl.new.router.set.root q = none := entries_fresh q
    rw [hfresh] at h
    cases h
  defaultFunc := rfl
  requests := rfl
  errors := rfl
  times := rfl
  notImpl := rfl

theorem registerMetric_ok (h : srv.Ok P) (T : MetricKind) (name : Bytes) :
    (srv.registerMetric T name).1.Ok P :=
  ⟨h.entry, h.defaultFunc, h.requests, h.errors, h.times, h.notImpl⟩

/-- A new route changes the router and the number of routes only. -/
theorem insertRoute_frame (srv : ServerImpl) (path : Bytes) (func : RouteFunc) :
    ∃ router n, (srv.insertRoute path func).2 = { srv with router := router, numRoutes := n } := by
  unfold ServerImpl.insertRoute
  rcases srv.router.addRoute path func with ⟨res, router⟩
  cases res with
  | ok u => exact ⟨router, srv.numRoutes + 1, rfl⟩
  | error e => exact ⟨router, srv.numRoutes, rfl⟩

theorem insertRoute_ok (h : srv.Ok P) {path : Bytes} {func : RouteFunc} (hfunc : P path func) :
    (srv.insertRoute path func).2.Ok P := by
  by_cases hpath : path = []
  · -- the throwing call leaves the router as it was
    subst hpath
    unfold ServerImpl.insertRoute
    rw [addRoute_nil]
    exact ⟨h.entry, h.defaultFunc, h.requests, h.errors, h.times, h.notImpl⟩
  · have hentries := addRoute_entries srv.router path func hpath
    have hdefault : (srv.router.addRoute path func).2.defaultFunc = srv.router.defaultFunc := rfl
    -- the new route is admitted, and the others are as they were
    have hentry : ∀ q func', entries (srv.router.addRoute path func).2.set.root q = some func' →
        P q func' := by
      intro q func' hq
      rw [hentries] at hq
      by_cases hqp : q = path
      · subst hqp
        rw [Function.update_self] at hq
        exact Option.some.inj hq ▸ hfunc
      · rw [Function.update_of_ne hqp] at hq
        exact h.entry q func' hq
    unfold ServerImpl.insertRoute
    rcases hadd : srv.router.addRoute path func with ⟨res, router⟩
    rw [hadd] at hentry hdefault
    cases res with
    | ok u => exact ⟨hentry, hdefault.trans h.defaultFunc, h.requests, h.errors, h.times, h.notImpl⟩
    | error e => exact ⟨hentry, hdefault.trans h.defaultFunc, h.requests, h.errors, h.times, h.notImpl⟩

theorem boot_ok (h : srv.Ok P) {event : BootEvent} (hevent : event.Admits P) :
    (srv.boot event).Ok P := by
  cases event with
  | addRoute path func =>
      exact insertRoute_ok (registerMetric_ok (registerMetric_ok (registerMetric_ok h _ _) _ _) _ _)
        (hevent _ _ _)
  | addDirectoryRoute path dir node =>
      show (srv.addDirectoryRoute (withSlash path) (withSlash dir) node).2.Ok P
      unfold ServerImpl.addDirectoryRoute
      rcases srv.fileCache.addDirectory (withSlash dir) node with ⟨ok, fileCache⟩
      have hcache : ServerImpl.Ok P { srv with fileCache := fileCache } :=
        ⟨h.entry, h.defaultFunc, h.requests, h.errors, h.times, h.notImpl⟩
      cases ok with
      | false => exact hcache
      | true =>
          exact insertRoute_ok
            (registerMetric_ok (registerMetric_ok (registerMetric_ok hcache _ _) _ _) _ _)
            (hevent _ _ _)
  | refresh u => exact ⟨h.entry, h.defaultFunc, h.requests, h.errors, h.times, h.notImpl⟩

/-- **Every bootstrap leaves a sound server**, with the pointer of the metric
"not_implemented" still null. -/
theorem ok_booted (events : List BootEvent) (hevents : ∀ event ∈ events, event.Admits P) :
    (ServerImpl.booted events).Ok P := by
  induction events using List.reverseRecOn with
  | nil => exact ok_new
  | append_singleton events event ih =>
      unfold ServerImpl.booted at ih ⊢
      rw [List.foldl_concat]
      exact boot_ok (ih (fun e he => hevents e (by simp [he]))) (hevents event (by simp))

/-- The route of a request is the default or was registered under a prefix
of its path. -/
theorem ServerImpl.Ok.findRoute_cases (h : srv.Ok P) (path : Bytes) :
    srv.router.findRoute path = .notFound ∨
      ∃ q, q <+: path ∧ P q (srv.router.findRoute path) := by
  unfold Router.findRoute
  cases hfind : srv.router.set.find path with
  | error e => exact .inl h.defaultFunc
  | ok func =>
      obtain ⟨q, hq, hentry⟩ := find_ok_prefix _ path func hfind
      exact .inr ⟨q, hq.isPrefix, h.entry q func hentry⟩

end Booted

/-! ## §5. Answers of the route functions. -/

/-- The code has returned, and the request has sent the one response `r`. -/
def Answered {Num : Type} (r : Int × Bytes) (o : Outcome Bytes Fault (Serving Num) Unit) : Prop :=
  ∃ s, o = .returned () s ∧ s.handling.req.AnsweredBy r.1 r.2

/-- The response a request to a Lua route asks for once it is in a fiber: the
handler's reply, or 500 where there is none. -/
def RouteEnv.luaReply {Num : Type} [DecidableEq Num] [LuaNumber Num] (env : RouteEnv Num)
    (func : Bytes) (req : Request) : Int × Bytes :=
  match env.runFiber with
  | .ok () => (handlerReply env.engine func req).getD (500, [])
  | .error _ => (500, [])

/-- The handling of a request by a Lua route fails: there is no fiber for it,
or its handler has no reply. -/
def RouteEnv.fails {Num : Type} [DecidableEq Num] [LuaNumber Num] (env : RouteEnv Num)
    (func : Bytes) (req : Request) : Bool :=
  match env.runFiber with
  | .ok () => (handlerReply env.engine func req).isNone
  | .error _ => true

section Answers

variable {Num : Type} [DecidableEq Num] [LuaNumber Num]
variable {P : Bytes → RouteFunc → Prop} {srv : ServerImpl}

/-- The code has returned, the request has sent the one response `r`, and the
metrics `ms` were recorded on the way. -/
def Replied (r : Int × Bytes) (ms : List (Option MetricId)) (s : Serving Num)
    (o : Outcome Bytes Fault (Serving Num) Unit) : Prop :=
  ∃ t, o = .returned () t ∧ t.handling.req.AnsweredBy r.1 r.2 ∧
    t.recorded = s.recorded ++ ms.reduceOption

omit [DecidableEq Num] [LuaNumber Num] in
theorem Replied.answered {r : Int × Bytes} {ms : List (Option MetricId)} {s : Serving Num}
    {o : Outcome Bytes Fault (Serving Num) Unit} (h : Replied r ms s o) : Answered r o := by
  obtain ⟨t, ht, hans, -⟩ := h
  exact ⟨t, ht, hans⟩

omit [DecidableEq Num] [LuaNumber Num] in
/-- What was recorded before comes first. -/
theorem Replied.after {r : Int × Bytes} {ms ms' : List (Option MetricId)} {s t : Serving Num}
    {o : Outcome Bytes Fault (Serving Num) Unit} (h : Replied r ms' t o)
    (ht : t.recorded = s.recorded ++ ms.reduceOption) : Replied r (ms ++ ms') s o := by
  obtain ⟨u, hu, hans, hrec⟩ := h
  refine ⟨u, hu, hans, ?_⟩
  rw [hrec, ht, List.reduceOption_append, List.append_assoc]

omit [DecidableEq Num] [LuaNumber Num] in
theorem record_apply {m : Option MetricId} (hm : m.isSome = true) (s : Serving Num) :
    ∃ t, record m s = .returned () t ∧ t.handling = s.handling ∧
      t.recorded = s.recorded ++ [m].reduceOption := by
  obtain ⟨id, rfl⟩ := Option.isSome_iff_exists.mp hm
  exact ⟨_, rfl, rfl, rfl⟩

omit [DecidableEq Num] [LuaNumber Num] in
theorem respond_replied {s : Serving Num} (h : s.handling.req.Fresh) (code : Int) (content : Bytes) :
    Replied (code, content) [] s (respond (sendResponse code content) s) := by
  obtain ⟨req, hsend, hans⟩ := sendResponse_fresh (φ := Fault) h code content
  refine ⟨{ s with handling := { s.handling with req := req } }, ?_, hans, (List.append_nil _).symm⟩
  simp [respond, hsend]

omit [DecidableEq Num] [LuaNumber Num] in
theorem Answered.ne_stuck {r : Int × Bytes} {o : Outcome Bytes Fault (Serving Num) Unit}
    (h : Answered r o) : ¬ o.Stuck := by
  obtain ⟨s, ho, -⟩ := h
  intro hstuck
  exact hstuck.ne_returned () s ho

omit [DecidableEq Num] [LuaNumber Num] in
/-- Two metrics are recorded and the response is sent. -/
theorem failWith_replied (h : srv.Ok P) (metricErr : MetricId) {s : Serving Num}
    (hfresh : s.handling.req.Fresh) (code : Int) :
    Replied (code, []) [srv.metricErrors, some metricErr] s
      ((do record srv.metricErrors
           record (some metricErr)
           respond (sendErrorResponse code) : RouteCode Num Unit) s) := by
  obtain ⟨t, ht, hsame, hrec⟩ := record_apply h.errors s
  obtain ⟨u, hu, hsame', hrec'⟩ := record_apply (m := some metricErr) rfl t
  simp only [Code.bind_apply, ht, hu, Outcome.andThen_returned]
  -- the answer is sent behind the two metrics
  refine ((respond_replied ?_ code []).after hrec').after hrec
  rw [hsame', hsame]
  exact hfresh

/-- The metrics of a failed request. -/
def ServerImpl.failureOf (srv : ServerImpl) (failed : Bool) (metricErr : MetricId) :
    List (Option MetricId) :=
  if failed then [srv.metricErrors, some metricErr] else []

/-- The timers that are updated where the time of a request is measured. -/
def ServerImpl.timersOf (srv : ServerImpl) (sampled : Bool) (metricTimes : MetricId) :
    List (Option MetricId) :=
  if sampled then [srv.metricTimes, some metricTimes] else []

omit [DecidableEq Num] [LuaNumber Num] in
/-- The timers are updated behind the code. -/
theorem timed_replied (h : srv.Ok P) (sampled : Bool) (metricTimes : MetricId)
    {x : RouteCode Num Unit} {s : Serving Num} {r : Int × Bytes} {ms : List (Option MetricId)}
    (hx : Replied r ms s (x s)) :
    Replied r (ms ++ srv.timersOf sampled metricTimes) s
      (timed sampled [srv.metricTimes, some metricTimes] x s) := by
  obtain ⟨t, ht, hans, hrec⟩ := hx
  unfold timed
  simp only [Code.bind_apply, Code.catching_of_returned ht, Outcome.andThen_returned]
  refine Replied.after ?_ hrec
  cases sampled with
  | false => exact ⟨t, rfl, hans, (List.append_nil _).symm⟩
  | true =>
      -- the dtor updates the server's timer and then the route's
      obtain ⟨u, hu, hsame, hrecu⟩ := record_apply h.times t
      obtain ⟨v, hv, hsame', hrecv⟩ := record_apply (m := some metricTimes) rfl u
      have hrun : (do [srv.metricTimes, some metricTimes].forM record : RouteCode Num Unit) t
          = .returned () v := by
        simp [List.forM_cons, hu, hv]
      have hans' : v.handling.req.AnsweredBy r.1 r.2 := by
        rw [hsame', hsame]
        exact hans
      have hlast : Replied r [some metricTimes] u (.returned () v) := ⟨v, rfl, hans', hrecv⟩
      simp only [if_true, hrun]
      exact hlast.after hrecu

omit [DecidableEq Num] [LuaNumber Num] in
theorem timed_stuck (sampled : Bool) (timers : List (Option MetricId)) {x : RouteCode Num Unit}
    {s : Serving Num} (hx : (x s).Stuck) :
    (timed sampled timers x s).Stuck ∧ (timed sampled timers x s).state = (x s).state := by
  unfold timed
  simp only [Code.bind_apply, Code.catching_eq_of_stuck hx]
  exact ⟨hx.andThen _, hx.state_andThen _⟩

/-- **The fiber answers the request**, with the handler's reply or with 500. -/
theorem requestFiber_replied (h : srv.Ok P) (env : RouteEnv Num) (func : Bytes)
    (metricErr : MetricId) {s : Serving Num} (hfresh : s.handling.req.Fresh)
    (hans : Answerable env.engine func s.handling.req) :
    ∃ fuel, Replied ((handlerReply env.engine func s.handling.req).getD (500, []))
      (srv.failureOf (handlerReply env.engine func s.handling.req).isNone metricErr) s
      (srv.requestFiber env fuel func metricErr s) := by
  obtain ⟨fuel, hhandled⟩ := handleRequest_handled env.engine func hfresh hans
  refine ⟨fuel, ?_⟩
  unfold ServerImpl.requestFiber
  cases hreply : handlerReply env.engine func s.handling.req with
  | some r =>
      rw [hreply] at hhandled
      obtain ⟨h', hret, hans', -⟩ := hhandled
      have hrun : onHandling (handleRequest env.engine fuel func) s
          = .returned () { s with handling := h' } := by
        rw [onHandling_apply, hret, Outcome.mapState_returned]
      rw [Code.catching_of_returned (Code.catching_of_returned hrun)]
      exact ⟨{ s with handling := h' }, rfl, hans', (List.append_nil _).symm⟩
  | none =>
      rw [hreply] at hhandled
      -- the exception is caught, and the request is still unanswered
      obtain ⟨e, h', hthrew, hfresh'⟩ := hhandled
      have hrun : onHandling (handleRequest env.engine fuel func) s
          = .threw e { s with handling := h' } := by
        rw [onHandling_apply, hthrew, Outcome.mapState_threw]
      obtain ⟨t, ht, hans', hrec⟩ :=
        failWith_replied h metricErr (s := { s with handling := h' }) hfresh' 500
      have hcaught : ((onHandling (handleRequest env.engine fuel func)).catching
          (fun _ => srv.failRequest metricErr)) s = .returned () t := by
        rw [Code.catching_of_threw hrun]
        exact ht
      rw [Code.catching_of_returned hcaught]
      exact ⟨t, rfl, hans', hrec⟩

theorem requestFiber_stuck (env : RouteEnv Num) (func : Bytes) (metricErr : MetricId)
    {s : Serving Num} (hfresh : s.handling.req.Fresh)
    (hans : ¬ Answerable env.engine func s.handling.req) (fuel : Nat) :
    (srv.requestFiber env fuel func metricErr s).Stuck ∧
      (srv.requestFiber env fuel func metricErr s).state.recorded = s.recorded := by
  have hstuck := handleRequest_stuck env.engine func hfresh hans fuel
  have hrun : (onHandling (handleRequest env.engine fuel func) s).Stuck := by
    rw [onHandling_apply]
    exact hstuck.mapState _
  have hcaught := Code.catching_eq_of_stuck (h := fun _ => srv.failRequest metricErr) hrun
  -- neither of the two catch blocks sees it
  have hfiber : srv.requestFiber env fuel func metricErr s
      = onHandling (handleRequest env.engine fuel func) s := by
    unfold ServerImpl.requestFiber
    rw [Code.catching_eq_of_stuck (by rw [hcaught]; exact hrun), hcaught]
  rw [hfiber]
  refine ⟨hrun, ?_⟩
  rw [onHandling_apply, Outcome.state_mapState]

/-- For GET and POST two metrics are recorded before the fiber is started. -/
theorem luaRoute_supported (h : srv.Ok P) (env : RouteEnv Num) (func : Bytes)
    (metricReq metricErr metricTimes : MetricId) {s : Serving Num}
    (hmethod : s.handling.req.method ≠ .other) :
    ∃ t, t.handling = s.handling ∧
      t.recorded = s.recorded ++ [srv.metricRequests, some metricReq].reduceOption ∧ ∀ fuel,
      srv.luaRoute env fuel func metricReq metricErr metricTimes s =
        timed env.sampled [srv.metricTimes, some metricTimes]
          ((match env.runFiber with
            | .ok () => srv.requestFiber env fuel func metricErr
            | .error e => Code.throw e : RouteCode Num Unit).catching
              (fun _ => srv.failRequest metricErr)) t := by
  have hsupported : s.handling.req.method = .get ∨ s.handling.req.method = .post := by
    cases hm : s.handling.req.method with
    | get => exact .inl rfl
    | post => exact .inr rfl
    | other => exact absurd hm hmethod
  obtain ⟨t, ht, hsame, hrec⟩ := record_apply h.requests s
  obtain ⟨u, hu, hsame', hrec'⟩ := record_apply (m := some metricReq) rfl t
  -- the request is as it was, with two metrics more
  refine ⟨u, hsame'.trans hsame, ?_, ?_⟩
  · rw [hrec', hrec, List.append_assoc, ← List.reduceOption_append]
    rfl
  · intro fuel
    unfold ServerImpl.luaRoute
    simp only [Code.bind_apply, Code.get_apply, Outcome.andThen_returned, if_pos hsupported, ht, hu]

/-- **A Lua route answers GET and POST**, if its fiber can. -/
theorem luaRoute_replied (h : srv.Ok P) (env : RouteEnv Num) (func : Bytes)
    (metricReq metricErr metricTimes : MetricId) {s : Serving Num} (hfresh : s.handling.req.Fresh)
    (hmethod : s.handling.req.method ≠ .other)
    (hans : env.runFiber = .ok () → Answerable env.engine func s.handling.req) :
    ∃ fuel, Replied (env.luaReply func s.handling.req)
      ([srv.metricRequests, some metricReq] ++
        (srv.failureOf (env.fails func s.handling.req) metricErr ++
          srv.timersOf env.sampled metricTimes)) s
      (srv.luaRoute env fuel func metricReq metricErr metricTimes s) := by
  obtain ⟨t, hsame, hrec, hroute⟩ :=
    luaRoute_supported h env func metricReq metricErr metricTimes hmethod
  have hfresh' : t.handling.req.Fresh := by
    rw [hsame]
    exact hfresh
  unfold RouteEnv.luaReply RouteEnv.fails
  cases hrun : env.runFiber with
  | ok u =>
      obtain ⟨fuel, r, hr, hans', hrec'⟩ := requestFiber_replied h env func metricErr hfresh'
        (by rw [hsame]; exact hans hrun)
      rw [hsame] at hans' hrec'
      refine ⟨fuel, Replied.after ?_ hrec⟩
      rw [hroute, hrun]
      exact timed_replied h _ _ ⟨r, Code.catching_of_returned hr, hans', hrec'⟩
  | error e =>
      refine ⟨0, Replied.after ?_ hrec⟩
      rw [hroute, hrun]
      refine timed_replied h _ _ ?_
      rw [Code.catching_of_threw (show (Code.throw e : RouteCode Num Unit) t = .threw e t from rfl)]
      exact failWith_replied h metricErr hfresh' 500

/-- Where the fiber cannot answer, the request stays unanswered. -/
theorem luaRoute_stuck (h : srv.Ok P) (env : RouteEnv Num) (fuel : Nat) (func : Bytes)
    (metricReq metricErr metricTimes : MetricId) {s : Serving Num} (hfresh : s.handling.req.Fresh)
    (hmethod : s.handling.req.method ≠ .other) (hrun : env.runFiber = .ok ())
    (hans : ¬ Answerable env.engine func s.handling.req) :
    (srv.luaRoute env fuel func metricReq metricErr metricTimes s).Stuck ∧
      (srv.luaRoute env fuel func metricReq metricErr metricTimes s).state.recorded =
        s.recorded ++ [srv.metricRequests, some metricReq].reduceOption := by
  obtain ⟨t, hsame, hrec, hroute⟩ :=
    luaRoute_supported h env func metricReq metricErr metricTimes hmethod
  rw [hroute, hrun, ← hrec]
  rw [← hsame] at hfresh hans
  obtain ⟨hfiber, hrec'⟩ := requestFiber_stuck env func metricErr hfresh hans fuel
  obtain ⟨hstuck, hstate⟩ := timed_stuck env.sampled [srv.metricTimes, some metricTimes]
    (Code.catching_of_stuck (h := fun _ => srv.failRequest metricErr) hfiber)
  refine ⟨hstuck, ?_⟩
  rw [hstate, Code.catching_eq_of_stuck hfiber]
  exact hrec'

/-- The server after calls of `add_route` with the given paths and functions. -/
def ServerImpl.withRoutes (routes : List (Bytes × Bytes)) : ServerImpl :=
  ServerImpl.booted (routes.map (fun r => .addRoute r.1 r.2))

/-- The response a request is owed.  A request without a route does not come
to the code of `add_route`: the default route answers it with 404, whatever
its method. -/
def ServerImpl.reply (srv : ServerImpl) (env : RouteEnv Num) (inc : Incoming) : Int × Bytes :=
  match srv.routeOf inc with
  | none => (501, [])
  | some (.lua func _ _ _) =>
      if inc.request.method = .other then (501, []) else env.luaReply func inc.request
  | some _ => (404, [])

end Answers

end Petrel
