/-
  Petrel.Core.ErrorMetrics — what the error meters count.

  The server registers a meter "errors" and a meter "not_implemented", and
  every route an error meter of its own.  The ctor binds the pointer
  `m_metric_errors` twice, the second time to "not_implemented", and the
  pointer `m_metric_not_impl` never.

  So a request that fails is counted under "not_implemented" and under the
  name of its route, nothing is ever counted under "errors", and the branches
  that are to answer 501 follow a null pointer.

  Main results:
    * `metered_booted`      — the objects of all pointers and routes, after
      every bootstrap.
    * `visit_booked`         — what one request leaves in the error meters.
    * `meters_count`        — what every sequence of requests leaves there.
    * `error_metrics_exact` — the sequences for which the meters count what
      their names say.
-/

import Petrel.Core.DirectoryRoutes

namespace Petrel

open Framework

/-! ## §1. The names of the metrics. -/

/-- The type the server gives a metric: of its names those of the timers begin
with a `t`. -/
def metricKind (name : Bytes) : MetricKind :=
  if name.head? = some (byte 't') then .timer else .meter

/-- The names of the error meters: those of the request meters begin with an
`r`, those of the timers with a `t`. -/
def isErrorName (name : Bytes) : Bool :=
  name.head? ≠ some (byte 'r') && name.head? ≠ some (byte 't')

/-- The metrics of a route are the objects under the names with its label. -/
def Labelled (metrics : Bytes → Option MetricId) (label : Bytes)
    (metricReq metricErr metricTimes : MetricId) : Prop :=
  metrics (bytes "requests_" ++ label) = some metricReq ∧
    metrics (bytes "errors_" ++ label) = some metricErr ∧
    metrics (bytes "times_" ++ label) = some metricTimes

/-- The error meter a registration of a route asks for. -/
def BootEvent.errorName : BootEvent → Option Bytes
  | .addRoute _ func => some (bytes "errors_" ++ func)
  | .addDirectoryRoute _ _ _ => some (bytes "errors_static_files")
  | .refresh _ => none

/-- The names of the error meters of all routes. -/
def errorNames (events : List BootEvent) : List Bytes := (events.filterMap BootEvent.errorName).dedup

/-- The metrics of a route are those of its label. -/
def RouteFunc.Metered (events : List BootEvent) (metrics : Bytes → Option MetricId) : RouteFunc → Prop
  | .lua func metricReq metricErr metricTimes =>
      bytes "errors_" ++ func ∈ errorNames events ∧
        Labelled metrics func metricReq metricErr metricTimes
  | .directory _ _ metricReq metricErr metricTimes =>
      bytes "errors_static_files" ∈ errorNames events ∧
        Labelled metrics (bytes "static_files") metricReq metricErr metricTimes
  | _ => False

theorem mem_errorNames {events : List BootEvent} {event : BootEvent} (hevent : event ∈ events)
    {name : Bytes} (hname : event.errorName = some name) : name ∈ errorNames events :=
  List.mem_dedup.mpr (List.mem_filterMap.mpr ⟨event, hevent, hname⟩)

theorem ne_of_take {a b : Bytes} (h : b.take a.length ≠ a) (label : Bytes) : a ++ label ≠ b := by
  intro heq
  rw [← heq, List.take_left] at h
  exact h rfl

/-- A name that no route can have. -/
theorem not_mem_errorNames {name : Bytes} (hlua : name.take (bytes "errors_").length ≠ bytes "errors_")
    (hdir : name ≠ bytes "errors_static_files") (events : List BootEvent) : name ∉ errorNames events := by
  intro hmem
  obtain ⟨event, -, hname⟩ := List.mem_filterMap.mp (List.mem_dedup.mp hmem)
  cases event with
  | addRoute path func => exact ne_of_take hlua func (Option.some.inj hname)
  | addDirectoryRoute path dir node => exact hdir (Option.some.inj hname).symm
  | refresh u => cases hname

/-- No route has the meter "errors". -/
theorem errors_not_mem (events : List BootEvent) : bytes "errors" ∉ errorNames events :=
  not_mem_errorNames (by decide) (by decide) events

theorem notImplemented_not_mem (events : List BootEvent) :
    bytes "not_implemented" ∉ errorNames events :=
  not_mem_errorNames (by decide) (by decide) events

theorem isErrorName_append {a : Bytes} {c : UInt8} (ha : a.head? = some c) (label : Bytes) :
    isErrorName (a ++ label) = (c ≠ byte 'r' && c ≠ byte 't') := by
  unfold isErrorName
  rw [List.head?_append, ha]
  simp

theorem isErrorName_of_mem {events : List BootEvent} {name : Bytes} (hname : name ∈ errorNames events) :
    isErrorName name = true := by
  obtain ⟨event, -, hevent⟩ := List.mem_filterMap.mp (List.mem_dedup.mp hname)
  cases event with
  | addRoute path func =>
      rw [← Option.some.inj hevent, isErrorName_append (c := byte 'e') (by decide)]
      decide
  | addDirectoryRoute path dir node =>
      rw [← Option.some.inj hevent]
      decide
  | refresh u => cases hevent

/-- Over distinct names the counts add up to the number of their members. -/
theorem sum_count_of_nodup {α : Type} [BEq α] [LawfulBEq α] {names : List α} (hnodup : names.Nodup)
    (l : List α) : (names.map (fun name => l.count name)).sum = l.countP names.contains := by
  have hone : ∀ (names : List α) (a : α),
      (names.map (fun name => if a == name then 1 else 0)).sum = names.count a := by
    intro names a
    induction names with
    | nil => rfl
    | cons b names ih =>
        rw [List.map_cons, List.sum_cons, ih, List.count_cons, Bool.beq_comm, Nat.add_comm]
  induction l with
  | nil => simp
  | cons a l ih =>
      simp only [List.count_cons, List.countP_cons, List.sum_map_add, ih, hone]
      congr 1
      -- a member adds one to the count of one name, any other element to none
      by_cases ha : a ∈ names
      · rw [List.count_eq_one_of_mem hnodup ha, if_pos (List.contains_iff_mem.mpr ha)]
      · rw [List.count_eq_zero_of_not_mem ha, if_neg (fun hc => ha (List.contains_iff_mem.mp hc))]

/-! ## §2. The objects of the booted server. -/

/-- What holds of the metrics of the server between the events of a bootstrap:
`metricErrors` is the meter "not_implemented", and the meter "errors" is there
without a pointer to it. -/
structure ServerImpl.Metered (events : List BootEvent) (srv : ServerImpl) : Prop where
  ok : srv.Ok (fun _ func => func.Metered events srv.registry.metrics)
  named : srv.registry.WellNamed metricKind
  requests : srv.metricRequests = srv.registry.metrics (bytes "requests")
  errors : srv.metricErrors = srv.registry.metrics (bytes "not_implemented")
  times : srv.metricTimes = srv.registry.metrics (bytes "times")
  unused : (srv.registry.metrics (bytes "errors")).isSome = true

section Metered

variable {events : List BootEvent} {srv : ServerImpl}

theorem ServerImpl.Ok.mono {P Q : Bytes → RouteFunc → Prop} (h : srv.Ok P)
    (hPQ : ∀ q func, P q func → Q q func) : srv.Ok Q :=
  ⟨fun q func hq => hPQ q func (h.entry q func hq), h.defaultFunc, h.requests, h.errors, h.times,
    h.notImpl⟩

/-- More names do not change the objects of a route. -/
theorem RouteFunc.Metered.mono {m m' : Bytes → Option MetricId} {func : RouteFunc}
    (h : func.Metered events m) (hm : ∀ q id, m q = some id → m' q = some id) :
    func.Metered events m' := by
  cases func with
  | lua func a b c => exact ⟨h.1, hm _ _ h.2.1, hm _ _ h.2.2.1, hm _ _ h.2.2.2⟩
  | directory path dir a b c => exact ⟨h.1, hm _ _ h.2.1, hm _ _ h.2.2.1, hm _ _ h.2.2.2⟩
  | empty => exact h
  | notFound => exact h

theorem wellNamed_empty : ({} : Registry).WellNamed metricKind :=
  ⟨fun _ _ h => (nomatch h), fun _ _ h => (nomatch h), fun _ _ _ h => (nomatch h)⟩

theorem metered_new : ServerImpl.new.Metered events where
  ok := ok_new
  named := by
    show ((((({} : Registry).registerMetric .meter (bytes "requests")).1.registerMetric
      .meter (bytes "errors")).1.registerMetric .meter (bytes "not_implemented")).1.registerMetric
      .timer (bytes "times")).1.WellNamed metricKind
    refine registerMetric_wellNamed (registerMetric_wellNamed (registerMetric_wellNamed
      (registerMetric_wellNamed wellNamed_empty ?_) ?_) ?_) ?_
    all_goals decide
  requests := rfl
  errors := rfl
  times := rfl
  unused := rfl

/-- A registration keeps the objects of all pointers and routes. -/
theorem registerMetric_metered (h : srv.Metered events) {T : MetricKind} {name : Bytes}
    (hT : metricKind name = T) : (srv.registerMetric T name).1.Metered events := by
  have hkeeps : ∀ q id, srv.registry.metrics q = some id →
      (srv.registry.registerMetric T name).1.metrics q = some id :=
    fun q id hq => registerMetric_keeps h.named hT hq
  -- a pointer that is set follows its name
  have hpointer : ∀ {m : Option MetricId} {q : Bytes}, m.isSome = true → m = srv.registry.metrics q →
      m = (srv.registry.registerMetric T name).1.metrics q := by
    intro m q hm hq
    obtain ⟨id, rfl⟩ := Option.isSome_iff_exists.mp hm
    exact (hkeeps q id hq.symm).symm
  refine ⟨?_, registerMetric_wellNamed h.named hT, hpointer h.ok.requests h.requests,
    hpointer h.ok.errors h.errors, hpointer h.ok.times h.times, ?_⟩
  · exact (registerMetric_ok h.ok _ name).mono (fun q func hq => hq.mono hkeeps)
  · obtain ⟨id, hid⟩ := Option.isSome_iff_exists.mp h.unused
    exact Option.isSome_iff_exists.mpr ⟨id, hkeeps _ id hid⟩

theorem insertRoute_metered (h : srv.Metered events) (path : Bytes) {func : RouteFunc}
    (hfunc : func.Metered events srv.registry.metrics) :
    (srv.insertRoute path func).2.Metered events := by
  have hok : (srv.insertRoute path func).2.Ok _ := insertRoute_ok h.ok hfunc
  obtain ⟨router, n, heq⟩ := insertRoute_frame srv path func
  rw [heq] at hok ⊢
  exact ⟨hok, h.named, h.requests, h.errors, h.times, h.unused⟩

theorem metricKind_append {a : Bytes} {c : UInt8} (ha : a.head? = some c) (label : Bytes) :
    metricKind (a ++ label) = if c = byte 't' then .timer else .meter := by
  unfold metricKind
  rw [List.head?_append, ha]
  simp

/-- The three registrations of a route give it the objects of its label. -/
theorem registerRoute_metered (h : srv.Metered events) (label : Bytes) :
    let req := srv.registerMetric .meter (bytes "requests_" ++ label)
    let err := req.1.registerMetric .meter (bytes "errors_" ++ label)
    let times := err.1.registerMetric .timer (bytes "times_" ++ label)
    times.1.Metered events ∧ Labelled times.1.registry.metrics label req.2 err.2 times.2 := by
  have hreq : metricKind (bytes "requests_" ++ label) = .meter :=
    metricKind_append (c := byte 'r') (by decide) label
  have herr : metricKind (bytes "errors_" ++ label) = .meter :=
    metricKind_append (c := byte 'e') (by decide) label
  have htimes : metricKind (bytes "times_" ++ label) = .timer :=
    metricKind_append (c := byte 't') (by decide) label
  have h1 := registerMetric_metered h hreq
  have h2 := registerMetric_metered h1 herr
  refine ⟨registerMetric_metered h2 htimes, ?_, ?_, registerMetric_metrics _ _ _⟩
  · -- the first object is still there after two more registrations
    exact registerMetric_keeps h2.named htimes
      (registerMetric_keeps h1.named herr (registerMetric_metrics _ _ _))
  · exact registerMetric_keeps h2.named htimes (registerMetric_metrics _ _ _)

/-- The file cache is none of the metrics' business. -/
theorem ServerImpl.Metered.fileCache (h : srv.Metered events) (cache : FileCache) :
    ServerImpl.Metered events { srv with fileCache := cache } :=
  ⟨⟨h.ok.entry, h.ok.defaultFunc, h.ok.requests, h.ok.errors, h.ok.times, h.ok.notImpl⟩,
    h.named, h.requests, h.errors, h.times, h.unused⟩

theorem boot_metered (h : srv.Metered events) {event : BootEvent} (hevent : event ∈ events) :
    (srv.boot event).Metered events := by
  cases event with
  | addRoute path func =>
      obtain ⟨hreg, hlabel⟩ := registerRoute_metered h func
      exact insertRoute_metered hreg path ⟨mem_errorNames hevent rfl, hlabel⟩
  | addDirectoryRoute path dir node =>
      show (srv.addDirectoryRoute (withSlash path) (withSlash dir) node).2.Metered events
      unfold ServerImpl.addDirectoryRoute
      rcases srv.fileCache.addDirectory (withSlash dir) node with ⟨ok, fileCache⟩
      have hcache : ServerImpl.Metered events { srv with fileCache := fileCache } := h.fileCache _
      cases ok with
      | false => exact hcache
      | true =>
          -- the names are made of one label, as those of `add_route`
          have hreq : bytes "requests_static_files" = bytes "requests_" ++ bytes "static_files" := by
            decide
          have herr : bytes "errors_static_files" = bytes "errors_" ++ bytes "static_files" := by decide
          have htimes : bytes "times_static_files" = bytes "times_" ++ bytes "static_files" := by decide
          simp only [hreq, herr, htimes]
          obtain ⟨hreg, hlabel⟩ := registerRoute_metered hcache (bytes "static_files")
          exact insertRoute_metered hreg (withSlash path) ⟨mem_errorNames hevent rfl, hlabel⟩
  | refresh u => exact h.fileCache _

/-- **THE POINTERS ARE SWAPPED** after every bootstrap. -/
theorem metered_booted (events : List BootEvent) : (ServerImpl.booted events).Metered events := by
  have hrun : ∀ before : List BootEvent, (∀ event ∈ before, event ∈ events) →
      (ServerImpl.booted before).Metered events := by
    intro before hbefore
    -- the names of all events are known from the beginning
    induction before using List.reverseRecOn with
    | nil => exact metered_new
    | append_singleton before event ih =>
        unfold ServerImpl.booted at ih ⊢
        rw [List.foldl_concat]
        exact boot_metered (ih (fun e he => hbefore e (by simp [he]))) (hbefore event (by simp))
  exact hrun events (fun _ h => h)

/-- A request is sent to no route, to the default, or to one with metrics. -/
theorem ServerImpl.Metered.routeOf_cases (h : srv.Metered events) (inc : Incoming) :
    srv.routeOf inc = none ∨ srv.routeOf inc = some .notFound ∨
      ∃ func, srv.routeOf inc = some func ∧ func.Metered events srv.registry.metrics := by
  have hfind : ∀ path, some (srv.router.findRoute path) = some .notFound ∨
      ∃ func, some (srv.router.findRoute path) = some func ∧
        func.Metered events srv.registry.metrics := by
    intro path
    rcases h.ok.findRoute_cases path with hdefault | ⟨q, -, hfunc⟩
    · exact .inl (by rw [hdefault])
    · exact .inr ⟨_, rfl, hfunc⟩
  cases inc with
  | http r => exact .inr (hfind r.path)
  | http2 r =>
      unfold ServerImpl.routeOf
      simp only
      split
      · exact .inr (hfind r.rawPath)
      · exact .inl rfl

/-! ## §3. What code leaves in the error meters. -/

/-- The metrics `ms` are under names of which `failures` are those of error
meters, and these are registered. -/
def Booked (srv : ServerImpl) (ms : List (Option MetricId)) (failures : List Bytes) : Prop :=
  ∃ names : List Bytes, ms = names.map srv.registry.metrics ∧ names.filter isErrorName = failures ∧
    ∀ name ∈ failures, (srv.registry.metrics name).isSome = true

theorem booked_nil : Booked srv [] [] := ⟨[], rfl, rfl, fun _ h => nomatch h⟩

theorem Booked.append {ms ms' : List (Option MetricId)} {failures failures' : List Bytes}
    (h : Booked srv ms failures) (h' : Booked srv ms' failures') :
    Booked srv (ms ++ ms') (failures ++ failures') := by
  obtain ⟨names, rfl, rfl, hsome⟩ := h
  obtain ⟨names', rfl, rfl, hsome'⟩ := h'
  refine ⟨names ++ names', List.map_append.symm, List.filter_append .., ?_⟩
  intro name hname
  rcases List.mem_append.mp hname with hname | hname
  · exact hsome name hname
  · exact hsome' name hname

/-- An error meter has one increment for each time it is among the failures. -/
theorem Booked.count (h : srv.Metered events) {ms : List (Option MetricId)} {failures : List Bytes}
    (hbooked : Booked srv ms failures) {name : Bytes} (herr : isErrorName name = true) {id : MetricId}
    (hname : srv.registry.metrics name = some id) : ms.reduceOption.count id = failures.count name := by
  obtain ⟨names, rfl, rfl, -⟩ := hbooked
  -- the objects are counted by name, and other names are no error meters
  rw [count_objects h.named hname, List.count_filter herr]

section Labelled

variable {label : Bytes} {metricReq metricErr metricTimes : MetricId}

theorem booked_requests (h : srv.Metered events)
    (hlabel : Labelled srv.registry.metrics label metricReq metricErr metricTimes) :
    Booked srv [srv.metricRequests, some metricReq] [] := by
  refine ⟨[bytes "requests", bytes "requests_" ++ label], ?_, ?_, fun _ h => nomatch h⟩
  · simp [h.requests, hlabel.1]
  · have hreq : isErrorName (bytes "requests") = false := by decide
    have hreq' : isErrorName (bytes "requests_" ++ label) = false :=
      (isErrorName_append (c := byte 'r') (by decide) label).trans (by decide)
    simp [hreq, hreq']

theorem booked_failure (h : srv.Metered events)
    (hlabel : Labelled srv.registry.metrics label metricReq metricErr metricTimes) (failed : Bool) :
    Booked srv (srv.failureOf failed metricErr)
      (if failed then [bytes "not_implemented", bytes "errors_" ++ label] else []) := by
  cases failed with
  | false => exact booked_nil
  | true =>
      refine ⟨[bytes "not_implemented", bytes "errors_" ++ label], ?_, ?_, ?_⟩
      · simp [ServerImpl.failureOf, h.errors, hlabel.2.1]
      · have hnot : isErrorName (bytes "not_implemented") = true := by decide
        have herr : isErrorName (bytes "errors_" ++ label) = true :=
          (isErrorName_append (c := byte 'e') (by decide) label).trans (by decide)
        simp [hnot, herr]
      · intro name hname
        rcases List.mem_pair.mp hname with rfl | rfl
        · rw [← h.errors]
          exact h.ok.errors
        · rw [hlabel.2.1]
          rfl

theorem booked_timers (h : srv.Metered events)
    (hlabel : Labelled srv.registry.metrics label metricReq metricErr metricTimes) (sampled : Bool) :
    Booked srv (srv.timersOf sampled metricTimes) [] := by
  cases sampled with
  | false => exact booked_nil
  | true =>
      refine ⟨[bytes "times", bytes "times_" ++ label], ?_, ?_, fun _ h => nomatch h⟩
      · simp [ServerImpl.timersOf, h.times, hlabel.2.2]
      · have htimes : isErrorName (bytes "times") = false := by decide
        have htimes' : isErrorName (bytes "times_" ++ label) = false :=
          (isErrorName_append (c := byte 't') (by decide) label).trans (by decide)
        simp [htimes, htimes']

end Labelled

/-! ## §4. What one request leaves there. -/

section Visits

variable {Num : Type} [DecidableEq Num] [LuaNumber Num]

/-- A request with what it meets, and the fuel of its header loop. -/
structure Visit (Num : Type) where
  env : RouteEnv Num
  inc : Incoming
  fuel : Nat := 0

/-- The handling of a request. -/
def ServerImpl.visit (srv : ServerImpl) (v : Visit Num) : Outcome Bytes Fault (Serving Num) Unit :=
  srv.serve v.env v.fuel v.inc

/-- The handling of a request comes to an end. -/
def ServerImpl.Ends (srv : ServerImpl) (v : Visit Num) : Prop := ∀ t, srv.visit v ≠ .exhausted t

/-- The file cache has the file a request asks a directory route for. -/
def Visit.finds (v : Visit Num) (path dir : Bytes) : Bool :=
  if v.inc.request.method = .get ∧ v.inc.request.path.getLast? ≠ some (byte '/') then
    (v.env.getFile (dir ++ v.inc.request.path.drop path.length)).isSome
  else false

/-- The error meter of the route of a request, if the route has failed. -/
def ServerImpl.failedRoute (srv : ServerImpl) (v : Visit Num) : Option Bytes :=
  match srv.routeOf v.inc, srv.visit v with
  | some (.lua func _ _ _), .returned _ _ =>
      if v.env.fails func v.inc.request then some (bytes "errors_" ++ func) else none
  | some (.directory path dir _ _ _), _ =>
      if v.finds path dir then none else some (bytes "errors_static_files")
  | _, _ => none

/-- The names of the error meters a request increments. -/
def ServerImpl.failures (srv : ServerImpl) (v : Visit Num) : List Bytes :=
  match srv.failedRoute v with
  | some name => [bytes "not_implemented", name]
  | none => []

/-- **More fuel does not change a request that has come to its end.** -/
theorem serve_extends (srv : ServerImpl) (env : RouteEnv Num) (inc : Incoming) {fuel fuel' : Nat}
    (hle : fuel ≤ fuel') :
    (∃ t, srv.serve env fuel inc = .exhausted t) ∨ srv.serve env fuel' inc = srv.serve env fuel inc := by
  have hfiber : ∀ func metricErr, Code.Extends (srv.requestFiber env fuel func metricErr)
      (srv.requestFiber env fuel' func metricErr) := by
    intro func metricErr
    unfold ServerImpl.requestFiber
    exact .catching (.catching (.zoom (handleRequest_extends env.engine func hle)) _) _
  have hlua : ∀ func a b c, Code.Extends (srv.luaRoute env fuel func a b c)
      (srv.luaRoute env fuel' func a b c) := by
    intro func a b c
    unfold ServerImpl.luaRoute timed
    refine .bind (.refl _) (fun s => .ite (.bind (.refl _) (fun _ => .bind (.refl _) (fun _ => ?_))) (.refl _))
    -- only the fiber has a loop
    refine .bind (.catching (.catching ?_ _) _) (fun _ => .refl _)
    cases env.runFiber with
    | ok u => exact hfiber func b
    | error e => exact .refl _
  rw [serve_eq, serve_eq]
  cases srv.routeOf inc with
  | none => exact .inr rfl
  | some func =>
      cases func with
      | empty => exact .inr rfl
      | notFound => exact .inr rfl
      | lua func a b c => exact hlua func a b c _
      | directory path dir a b c => exact .inr rfl

/-- A request ends in one way. -/
theorem Ends.visit_eq {v : Visit Num} (h : srv.Ends v) {fuel : Nat}
    (hfuel : ∀ t, srv.serve v.env fuel v.inc ≠ .exhausted t) :
    srv.visit v = srv.serve v.env fuel v.inc := by
  -- both agree with the run on the larger of the two fuels
  have hleft := serve_extends srv v.env v.inc (Nat.le_max_left v.fuel fuel)
  have hright := serve_extends srv v.env v.inc (Nat.le_max_right v.fuel fuel)
  rcases hleft with ⟨t, ht⟩ | hleft
  · exact absurd ht (h t)
  rcases hright with ⟨t, ht⟩ | hright
  · exact absurd ht (hfuel t)
  exact hleft.symm.trans hright

theorem visit_notFound {v : Visit Num} (hroute : srv.routeOf v.inc = some .notFound) :
    Replied (404, []) [] (.start v.inc.request) (srv.visit v) := by
  unfold ServerImpl.visit
  rw [serve_eq, hroute]
  exact respond_replied (fresh_request v.inc) 404 []

/-- What a request to a Lua route with GET or POST does, where its fiber can
answer. -/
theorem visit_lua (h : srv.Metered events) {v : Visit Num} (hends : srv.Ends v) {func : Bytes}
    {a b c : MetricId} (hroute : srv.routeOf v.inc = some (.lua func a b c))
    (hmethod : v.inc.request.method ≠ .other)
    (hans : v.env.runFiber = .ok () → Answerable v.env.engine func v.inc.request) :
    Replied (v.env.luaReply func v.inc.request)
      ([srv.metricRequests, some a] ++
        (srv.failureOf (v.env.fails func v.inc.request) b ++ srv.timersOf v.env.sampled c))
      (.start v.inc.request) (srv.visit v) := by
  obtain ⟨fuel, hreplied⟩ := luaRoute_replied h.ok v.env func a b c
    (s := .start v.inc.request) (fresh_request v.inc) hmethod hans
  have hserve : srv.serve v.env fuel v.inc =
      srv.luaRoute v.env fuel func a b c (.start v.inc.request) := by
    rw [serve_eq, hroute]
    rfl
  -- the fuel of the answer is as good as that of the request
  have heq : srv.visit v = srv.luaRoute v.env fuel func a b c (.start v.inc.request) := by
    rw [← hserve]
    refine Ends.visit_eq hends ?_
    intro t ht
    obtain ⟨u, hu, -⟩ := hreplied
    rw [hserve, hu] at ht
    cases ht
  rw [heq]
  exact hreplied

/-- Where the fiber cannot answer, the request is counted as a request only. -/
theorem visit_lua_stuck (h : srv.Metered events) {v : Visit Num} {func : Bytes} {a b c : MetricId}
    (hroute : srv.routeOf v.inc = some (.lua func a b c)) (hmethod : v.inc.request.method ≠ .other)
    (hrun : v.env.runFiber = .ok ()) (hans : ¬ Answerable v.env.engine func v.inc.request) :
    (srv.visit v).Stuck ∧
      (srv.visit v).state.recorded = [srv.metricRequests, some a].reduceOption := by
  unfold ServerImpl.visit
  rw [serve_eq, hroute]
  exact luaRoute_stuck h.ok v.env v.fuel func a b c (s := .start v.inc.request)
    (fresh_request v.inc) hmethod hrun hans

/-- The request takes a branch that is to answer it with 501. -/
def ServerImpl.unsupported (srv : ServerImpl) (inc : Incoming) : Bool :=
  match srv.routeOf inc with
  | none => true
  | some (.lua _ _ _ _) => inc.request.method == .other
  | some _ => false

/-- **THE NULL POINTER**: such a request records nothing and ends the process. -/
theorem visit_unsupported (h : srv.Metered events) {v : Visit Num}
    (hv : srv.unsupported v.inc = true) :
    srv.visit v = .died .nullDereference (.start v.inc.request) := by
  unfold ServerImpl.unsupported at hv
  unfold ServerImpl.visit
  rw [serve_eq]
  cases hroute : srv.routeOf v.inc with
  | none =>
      simp only [h.ok.notImpl]
      rfl
  | some func =>
      rw [hroute] at hv
      cases func with
      | lua func a b c =>
          have hmethod : v.inc.request.method = .other := eq_of_beq hv
          -- the method is none of the two
          have hget : ¬ (v.inc.request.method = .get ∨ v.inc.request.method = .post) := by
            rw [hmethod]
            decide
          show srv.luaRoute v.env v.fuel func a b c (.start v.inc.request) = _
          unfold ServerImpl.luaRoute
          simp only [Code.bind_apply, Code.get_apply, Outcome.andThen_returned]
          rw [show (Serving.start v.inc.request : Serving Num).handling.req = v.inc.request from rfl,
            if_neg hget, h.ok.notImpl]
          rfl
      | empty => cases hv
      | notFound => cases hv
      | directory path dir a b c => cases hv

omit [DecidableEq Num] [LuaNumber Num] in
/-- The reply of a directory route is a file where the cache has it. -/
theorem directoryReply_status (v : Visit Num) {path rel : Bytes}
    (hpath : v.inc.request.path = path ++ rel) (dir : Bytes) :
    (directoryReply v.env v.inc.request.method path dir rel).1 =
      if v.finds path dir then 200 else 404 := by
  have hrel : v.inc.request.path.drop path.length = rel := by
    rw [hpath]
    exact List.drop_left ..
  unfold Visit.finds
  rw [hrel, hpath]
  unfold directoryReply
  by_cases hget : v.inc.request.method = .get ∧ (path ++ rel).getLast? ≠ some (byte '/')
  · rw [if_pos hget, if_pos hget]
    cases v.env.getFile (dir ++ rel) with
    | none => rfl
    | some f => rfl
  · rw [if_neg hget, if_neg hget]
    rfl

/-- What a request to a directory route does. -/
theorem visit_directory {v : Visit Num} {path dir : Bytes} {a b c : MetricId}
    (hroute : (ServerImpl.booted events).routeOf v.inc = some (.directory path dir a b c)) :
    ∃ body sampled,
      Replied (if v.finds path dir then 200 else 404, body)
        ((ServerImpl.booted events).directoryMetrics (v.finds path dir) a b ++
          (ServerImpl.booted events).timersOf sampled c)
        (.start v.inc.request) ((ServerImpl.booted events).visit v) := by
  obtain ⟨⟨rel, hrel⟩, -, p, d, node, -, hp, -⟩ := routeOf_prefix hroute
  have hpath : path ≠ [] := hp ▸ withSlash_ne_nil p
  have hstatus := directoryReply_status v hrel.symm dir
  have hreplied := directoryRoute_replied (metered_booted events).ok v.env hpath dir rel a b c
    (s := .start v.inc.request) (fresh_request v.inc) hrel.symm
  have hserve : (ServerImpl.booted events).visit v =
      (ServerImpl.booted events).directoryRoute v.env path dir a b c (.start v.inc.request) := by
    unfold ServerImpl.visit
    rw [serve_eq, hroute]
    rfl
  -- a file is what makes the status 200
  have hfound : decide ((directoryReply v.env v.inc.request.method path dir rel).1 = 200) =
      v.finds path dir := by
    rw [hstatus]
    cases v.finds path dir <;> decide
  refine ⟨(directoryReply v.env v.inc.request.method path dir rel).2,
    v.env.sampled && v.inc.request.method == .get, ?_⟩
  rw [hserve, ← hstatus, ← hfound]
  exact hreplied

/-- The ways a request can go. -/
inductive Course (events : List BootEvent) (v : Visit Num) : Prop where
  | unsupported (hv : (ServerImpl.booted events).unsupported v.inc = true)
      (hdied : (ServerImpl.booted events).visit v = .died .nullDereference (.start v.inc.request))
  | notFound (hroute : (ServerImpl.booted events).routeOf v.inc = some .notFound)
      (hreplied : Replied (404, []) [] (.start v.inc.request) ((ServerImpl.booted events).visit v))
  | answered {func : Bytes} {a b c : MetricId}
      (hroute : (ServerImpl.booted events).routeOf v.inc = some (.lua func a b c))
      (hlabel : Labelled (ServerImpl.booted events).registry.metrics func a b c)
      (hmethod : v.inc.request.method ≠ .other)
      (hans : v.env.runFiber = .ok () → Answerable v.env.engine func v.inc.request)
      (hreplied : Replied (v.env.luaReply func v.inc.request)
        ([(ServerImpl.booted events).metricRequests, some a] ++
          ((ServerImpl.booted events).failureOf (v.env.fails func v.inc.request) b ++
            (ServerImpl.booted events).timersOf v.env.sampled c))
        (.start v.inc.request) ((ServerImpl.booted events).visit v))
  | stuck {func : Bytes} {a b c : MetricId}
      (hroute : (ServerImpl.booted events).routeOf v.inc = some (.lua func a b c))
      (hlabel : Labelled (ServerImpl.booted events).registry.metrics func a b c)
      (hmethod : v.inc.request.method ≠ .other)
      (hread : ¬ (v.env.runFiber = .ok () → Answerable v.env.engine func v.inc.request))
      (hstuck : ((ServerImpl.booted events).visit v).Stuck)
      (hrec : ((ServerImpl.booted events).visit v).state.recorded =
        [(ServerImpl.booted events).metricRequests, some a].reduceOption)
  | directory {path dir body : Bytes} {a b c : MetricId} {sampled : Bool}
      (hroute : (ServerImpl.booted events).routeOf v.inc = some (.directory path dir a b c))
      (hlabel : Labelled (ServerImpl.booted events).registry.metrics (bytes "static_files") a b c)
      (hreplied : Replied (if v.finds path dir then 200 else 404, body)
        ((ServerImpl.booted events).directoryMetrics (v.finds path dir) a b ++
          (ServerImpl.booted events).timersOf sampled c)
        (.start v.inc.request) ((ServerImpl.booted events).visit v))

/-- **Every request that comes to an end takes one of these ways.** -/
theorem course (events : List BootEvent) {v : Visit Num} (hends : (ServerImpl.booted events).Ends v) :
    Course events v := by
  have h := metered_booted events
  by_cases hv : (ServerImpl.booted events).unsupported v.inc = true
  · exact .unsupported hv (visit_unsupported h hv)
  · unfold ServerImpl.unsupported at hv
    rcases h.routeOf_cases v.inc with hroute | hroute | ⟨func, hroute, hfunc⟩
    · rw [hroute] at hv
      exact absurd rfl hv
    · exact .notFound hroute (visit_notFound hroute)
    · cases func with
      | empty => exact hfunc.elim
      | notFound => exact hfunc.elim
      | lua func a b c =>
          rw [hroute] at hv
          have hmethod : v.inc.request.method ≠ .other := fun heq => hv (by rw [heq]; rfl)
          -- the state can be read, or there is a fiber that is stuck on it
          by_cases hans : v.env.runFiber = .ok () → Answerable v.env.engine func v.inc.request
          · exact .answered hroute hfunc.2 hmethod hans (visit_lua h hends hroute hmethod hans)
          · obtain ⟨hrun, hread⟩ := Classical.not_imp.mp hans
            obtain ⟨hstuck, hrec⟩ := visit_lua_stuck h hroute hmethod hrun hread
            exact .stuck hroute hfunc.2 hmethod hans hstuck hrec
      | directory path dir a b c =>
          obtain ⟨body, sampled, hreplied⟩ := visit_directory hroute
          exact .directory hroute hfunc.2 hreplied

/-- A request records the metrics of a reply. -/
theorem Replied.booked {r : Int × Bytes} {ms : List (Option MetricId)} {failures : List Bytes}
    {v : Visit Num} (h : Replied r ms (.start v.inc.request) (srv.visit v))
    (hbooked : Booked srv ms failures) :
    ∃ ms, (srv.visit v).state.recorded = ms.reduceOption ∧ Booked srv ms failures := by
  obtain ⟨t, ht, -, hrec⟩ := h
  refine ⟨ms, ?_, hbooked⟩
  rw [ht]
  exact hrec

theorem failures_lua {v : Visit Num} {func : Bytes} {a b c : MetricId}
    (hroute : srv.routeOf v.inc = some (.lua func a b c)) {t : Serving Num}
    (hv : srv.visit v = .returned () t) :
    srv.failures v = if v.env.fails func v.inc.request then
      [bytes "not_implemented", bytes "errors_" ++ func] else [] := by
  unfold ServerImpl.failures ServerImpl.failedRoute
  rw [hroute, hv]
  cases hfails : v.env.fails func v.inc.request with
  | true => simp only [hfails, if_true]
  | false => simp [hfails]

/-- A Lua route that does not return has not failed. -/
theorem failures_stuck {v : Visit Num} {func : Bytes} {a b c : MetricId}
    (hroute : srv.routeOf v.inc = some (.lua func a b c)) (hv : (srv.visit v).Stuck) :
    srv.failures v = [] := by
  unfold ServerImpl.failures ServerImpl.failedRoute
  rw [hroute]
  rcases hv with ⟨d, t, ht⟩ | ⟨t, ht⟩
  · rw [ht]
  · rw [ht]

theorem failures_directory {v : Visit Num} {path dir : Bytes} {a b c : MetricId}
    (hroute : srv.routeOf v.inc = some (.directory path dir a b c)) :
    srv.failures v = if !v.finds path dir then
      [bytes "not_implemented", bytes "errors_static_files"] else [] := by
  unfold ServerImpl.failures ServerImpl.failedRoute
  rw [hroute]
  cases hfinds : v.finds path dir with
  | true => simp [hfinds]
  | false => simp [hfinds]

/-- A request on a branch to 501 has no route that could fail. -/
theorem failures_unsupported {v : Visit Num} (hv : srv.unsupported v.inc = true)
    (hdied : (srv.visit v).Stuck) : srv.failures v = [] := by
  unfold ServerImpl.unsupported at hv
  cases hroute : srv.routeOf v.inc with
  | none =>
      unfold ServerImpl.failures ServerImpl.failedRoute
      rw [hroute]
  | some func =>
      rw [hroute] at hv
      cases func with
      | lua func a b c => exact failures_stuck hroute hdied
      | empty => cases hv
      | notFound => cases hv
      | directory path dir a b c => cases hv

theorem failures_notFound {v : Visit Num} (hroute : srv.routeOf v.inc = some .notFound) :
    srv.failures v = [] := by
  unfold ServerImpl.failures ServerImpl.failedRoute
  rw [hroute]

theorem booked_directory (h : srv.Metered events) {a b c : MetricId}
    (hlabel : Labelled srv.registry.metrics (bytes "static_files") a b c) (found : Bool) :
    Booked srv (srv.directoryMetrics found a b)
      (if !found then [bytes "not_implemented", bytes "errors_static_files"] else []) := by
  cases found with
  | true => exact booked_requests h hlabel
  | false => exact booked_failure h hlabel true

/-- **THE BOOKS OF A REQUEST**: a request that fails increments the meter
"not_implemented" and the error meter of its route, any other request none of
the error meters. -/
theorem visit_booked (events : List BootEvent) {v : Visit Num}
    (hends : (ServerImpl.booted events).Ends v) :
    ∃ ms, ((ServerImpl.booted events).visit v).state.recorded = ms.reduceOption ∧
      Booked (ServerImpl.booted events) ms ((ServerImpl.booted events).failures v) := by
  have h := metered_booted events
  cases course events hends with
  | unsupported hv hdied =>
      -- the null pointer comes before the first record
      rw [failures_unsupported hv (.inl ⟨_, _, hdied⟩), hdied]
      exact ⟨[], rfl, booked_nil⟩
  | notFound hroute hreplied =>
      rw [failures_notFound hroute]
      exact hreplied.booked booked_nil
  | @answered func a b c hroute hlabel hmethod hans hreplied =>
      have hbooked := (booked_requests h hlabel).append
        ((booked_failure h hlabel (v.env.fails func v.inc.request)).append
          (booked_timers h hlabel v.env.sampled))
      rw [List.nil_append, List.append_nil] at hbooked
      have hret := hreplied
      obtain ⟨t, ht, -⟩ := hret
      rw [failures_lua hroute ht]
      exact hreplied.booked hbooked
  | stuck hroute hlabel hmethod hread hstuck hrec =>
      rw [failures_stuck hroute hstuck]
      exact ⟨_, hrec, booked_requests h hlabel⟩
  | @directory path dir body a b c sampled hroute hlabel hreplied =>
      have hbooked := (booked_directory h hlabel (v.finds path dir)).append
        (booked_timers h hlabel sampled)
      rw [List.append_nil] at hbooked
      rw [failures_directory hroute]
      exact hreplied.booked hbooked

/-! ## §5. What a sequence of requests leaves there. -/

/-- How often the requests increment the meter under a name. -/
def ServerImpl.increments (srv : ServerImpl) (vs : List (Visit Num)) (name : Bytes) : Nat :=
  match srv.registry.getMetric .meter name with
  | some id => (vs.flatMap (fun v => (srv.visit v).state.recorded)).count id
  | none => 0

/-- The route of the request has failed. -/
def ServerImpl.failed (srv : ServerImpl) (v : Visit Num) : Bool := (srv.failedRoute v).isSome

theorem ServerImpl.Metered.getMetric (h : srv.Metered events) {name : Bytes}
    (herr : isErrorName name = true) :
    srv.registry.getMetric .meter name = srv.registry.metrics name := by
  have hkind : metricKind name = .meter := by
    unfold metricKind
    unfold isErrorName at herr
    rw [if_neg (by simpa using (Bool.and_eq_true_iff.mp herr).2)]
  cases hname : srv.registry.metrics name with
  | none =>
      unfold Registry.getMetric
      rw [hname]
      rfl
  | some id =>
      rw [← hkind]
      exact h.named.getMetric hname

/-- The increments of an error meter are those its name has among the
failures. -/
theorem increments_eq (events : List BootEvent) {vs : List (Visit Num)}
    (hends : ∀ v ∈ vs, (ServerImpl.booted events).Ends v) {name : Bytes}
    (herr : isErrorName name = true) :
    (ServerImpl.booted events).increments vs name =
      (vs.flatMap (ServerImpl.booted events).failures).count name := by
  have h := metered_booted events
  unfold ServerImpl.increments
  rw [h.getMetric herr]
  cases hname : (ServerImpl.booted events).registry.metrics name with
  | none =>
      -- a request fails on registered meters only
      refine (List.count_eq_zero.mpr ?_).symm
      intro hmem
      obtain ⟨v, hv, hfailure⟩ := List.mem_flatMap.mp hmem
      obtain ⟨ms, -, names, -, -, hsome⟩ := visit_booked events (hends v hv)
      have hname' := hsome name hfailure
      rw [hname] at hname'
      cases hname'
  | some id =>
      induction vs with
      | nil => rfl
      | cons v vs ih =>
          obtain ⟨ms, hrec, hbooked⟩ := visit_booked events (hends v (List.mem_cons_self ..))
          have hv := hbooked.count h herr hname
          have hvs := ih (fun u hu => hends u (List.mem_cons_of_mem _ hu))
          simp only [List.flatMap_cons, List.count_append, hrec] at hvs ⊢
          omega

/-- The failing route has an error meter. -/
theorem failedRoute_mem (h : srv.Metered events) {v : Visit Num} {name : Bytes}
    (hv : srv.failedRoute v = some name) : name ∈ errorNames events := by
  unfold ServerImpl.failedRoute at hv
  rcases h.routeOf_cases v.inc with hroute | hroute | ⟨func, hroute, hfunc⟩
  · rw [hroute] at hv
    cases hv
  · rw [hroute] at hv
    cases hv
  · rw [hroute] at hv
    cases func with
    | lua func a b c =>
        cases hvisit : srv.visit v with
        | returned u t =>
            rw [hvisit] at hv
            cases hfails : v.env.fails func v.inc.request with
            | true =>
                simp only [hfails, if_true, Option.some.injEq] at hv
                exact hv ▸ hfunc.1
            | false => simp [hfails] at hv
        | threw e t => simp [hvisit] at hv
        | died d t => simp [hvisit] at hv
        | exhausted t => simp [hvisit] at hv
    | directory path dir a b c =>
        cases hfinds : v.finds path dir with
        | true => simp [hfinds] at hv
        | false =>
            simp only [hfinds, Bool.false_eq_true, if_false, Option.some.injEq] at hv
            exact hv ▸ hfunc.1
    | empty => cases hv
    | notFound => cases hv

/-- Each failed request brings the name "not_implemented" and one name of a
route. -/
theorem countP_failures (h : srv.Metered events) (p : Bytes → Bool) {x y : Bool}
    (hx : p (bytes "not_implemented") = x) (hy : ∀ name ∈ errorNames events, p name = y)
    (vs : List (Visit Num)) :
    (vs.flatMap srv.failures).countP p = vs.countP srv.failed * (x.toNat + y.toNat) := by
  induction vs with
  | nil => exact (Nat.zero_mul _).symm
  | cons v vs ih =>
      rw [List.flatMap_cons, List.countP_append, ih, List.countP_cons, Nat.add_mul, Nat.add_comm]
      congr 1
      unfold ServerImpl.failures ServerImpl.failed
      cases hv : srv.failedRoute v with
      | none => simp
      | some name =>
          have hname := hy name (failedRoute_mem h hv)
          simp only [List.countP_cons, List.countP_nil, hx, hname, Option.isSome_some, if_true,
            Nat.one_mul]
          cases x <;> cases y <;> rfl

/-- **WHAT THE METERS COUNT.**  Nothing is counted under "errors", and every
failed request under "not_implemented" and by the meter of its route. -/
theorem meters_count (events : List BootEvent) {vs : List (Visit Num)}
    (hends : ∀ v ∈ vs, (ServerImpl.booted events).Ends v) :
    (ServerImpl.booted events).increments vs (bytes "errors") = 0 ∧
      (ServerImpl.booted events).increments vs (bytes "not_implemented") =
        vs.countP (ServerImpl.booted events).failed ∧
      ((errorNames events).map ((ServerImpl.booted events).increments vs)).sum =
        vs.countP (ServerImpl.booted events).failed := by
  have h := metered_booted events
  refine ⟨?_, ?_, ?_⟩
  · have hnot : ∀ name ∈ errorNames events, (name == bytes "errors") = false := by
      intro name hname
      refine beq_false_of_ne ?_
      intro heq
      exact errors_not_mem events (heq ▸ hname)
    rw [increments_eq events hends (by decide), List.count_eq_countP,
      countP_failures h _ (by decide : _ = false) hnot]
    simp
  · have hnot : ∀ name ∈ errorNames events, (name == bytes "not_implemented") = false := by
      intro name hname
      refine beq_false_of_ne ?_
      intro heq
      exact notImplemented_not_mem events (heq ▸ hname)
    rw [increments_eq events hends (by decide), List.count_eq_countP,
      countP_failures h _ (by decide : _ = true) hnot]
    simp
  · -- each meter of a route counts how often its name is among the failures
    have hsum : (errorNames events).map ((ServerImpl.booted events).increments vs) =
        (errorNames events).map (fun name => (vs.flatMap (ServerImpl.booted events).failures).count name) :=
      List.map_congr_left (fun name hname => increments_eq events hends (isErrorName_of_mem hname))
    have hnodup : (errorNames events).Nodup := List.nodup_dedup _
    rw [hsum, sum_count_of_nodup hnodup, countP_failures h _ (x := false) (y := true)]
    · simp
    · simpa using notImplemented_not_mem events
    · exact fun name hname => List.contains_iff_mem.mpr hname

/-! ## §6. What their names say. -/

/-- The status a request is answered with.  A request that takes a branch to
501 counts as one, although the process ends before the response is sent. -/
def ServerImpl.status (srv : ServerImpl) (v : Visit Num) : Option Int :=
  if srv.unsupported v.inc then some 501
  else match srv.visit v with
    | .returned _ t => t.handling.req.sent.head?.map (fun r => r.status)
    | _ => none

/-- A Lua route has answered with 500 or a directory route with 404. -/
def ServerImpl.isError (srv : ServerImpl) (v : Visit Num) : Bool :=
  match srv.routeOf v.inc with
  | some (.lua _ _ _ _) => srv.status v == some 500
  | some (.directory _ _ _ _ _) => srv.status v == some 404
  | _ => false

/-- The meters of the server count what their names say. -/
structure ErrorsCounted (events : List BootEvent) (vs : List (Visit Num)) : Prop where
  errors : (ServerImpl.booted events).increments vs (bytes "errors") =
    vs.countP (ServerImpl.booted events).isError
  notImplemented : (ServerImpl.booted events).increments vs (bytes "not_implemented") =
    vs.countP (fun v => (ServerImpl.booted events).status v == some 501)
  routes : (ServerImpl.booted events).increments vs (bytes "errors") =
    ((errorNames events).map ((ServerImpl.booted events).increments vs)).sum

/-- The request asks for no answer that has a counter: its method is
supported, its handler replies with neither 500 nor 501, its file is found. -/
def ServerImpl.Quiet (srv : ServerImpl) (v : Visit Num) : Prop :=
  match srv.routeOf v.inc with
  | none => False
  | some (.lua func _ _ _) =>
      v.inc.request.method ≠ .other ∧
        ((v.env.runFiber = .ok () → Answerable v.env.engine func v.inc.request) →
          (v.env.luaReply func v.inc.request).1 ≠ 500 ∧ (v.env.luaReply func v.inc.request).1 ≠ 501)
  | some (.directory path dir _ _ _) => v.finds path dir = true
  | some _ => True

theorem Replied.status {r : Int × Bytes} {ms : List (Option MetricId)} {v : Visit Num}
    (h : Replied r ms (.start v.inc.request) (srv.visit v)) (hv : srv.unsupported v.inc = false) :
    srv.status v = some r.1 := by
  obtain ⟨t, ht, ⟨headers, hsent⟩, -⟩ := h
  unfold ServerImpl.status
  rw [hv, ht]
  simp [hsent]

theorem unsupported_lua {inc : Incoming} {func : Bytes} {a b c : MetricId}
    (hroute : srv.routeOf inc = some (.lua func a b c)) (hmethod : inc.request.method ≠ .other) :
    srv.unsupported inc = false := by
  unfold ServerImpl.unsupported
  rw [hroute]
  exact beq_false_of_ne hmethod

theorem luaReply_of_fails {env : RouteEnv Num} {func : Bytes} {req : Request}
    (h : env.fails func req = true) : (env.luaReply func req).1 = 500 := by
  unfold RouteEnv.fails at h
  unfold RouteEnv.luaReply
  cases hrun : env.runFiber with
  | ok u =>
      rw [hrun] at h
      rw [Option.isNone_iff_eq_none.mp h]
      rfl
  | error e => rfl

theorem not_quiet_of_unsupported {v : Visit Num} (hv : srv.unsupported v.inc = true) :
    ¬ srv.Quiet v := by
  unfold ServerImpl.unsupported at hv
  unfold ServerImpl.Quiet
  cases hroute : srv.routeOf v.inc with
  | none => exact id
  | some func =>
      rw [hroute] at hv
      cases func with
      | lua func a b c => exact fun hquiet => hquiet.1 (eq_of_beq hv)
      | empty => cases hv
      | notFound => cases hv
      | directory path dir a b c => cases hv

/-- **A request is quiet** if and only if its status has no counter. -/
theorem quiet_iff (events : List BootEvent) {v : Visit Num}
    (hends : (ServerImpl.booted events).Ends v) :
    (ServerImpl.booted events).Quiet v ↔ (ServerImpl.booted events).isError v = false ∧
      (ServerImpl.booted events).status v ≠ some 501 := by
  cases course events hends with
  | unsupported hv hdied =>
      have hstatus : (ServerImpl.booted events).status v = some 501 := by
        unfold ServerImpl.status
        rw [if_pos hv]
      refine ⟨fun hquiet => absurd hquiet (not_quiet_of_unsupported hv), fun hquiet => ?_⟩
      exact absurd hstatus hquiet.2
  | notFound hroute hreplied =>
      have hstatus := hreplied.status (by unfold ServerImpl.unsupported; rw [hroute])
      simp [ServerImpl.Quiet, ServerImpl.isError, hroute, hstatus]
  | @answered func a b c hroute hlabel hmethod hans hreplied =>
      have hstatus := hreplied.status (unsupported_lua hroute hmethod)
      unfold ServerImpl.Quiet ServerImpl.isError
      rw [hroute]
      simp only [hstatus]
      constructor
      · intro hquiet
        obtain ⟨h500, h501⟩ := hquiet.2 hans
        exact ⟨by simpa using h500, by simpa using h501⟩
      · intro hquiet
        exact ⟨hmethod, fun _ => ⟨by simpa using hquiet.1, by simpa using hquiet.2⟩⟩
  | stuck hroute hlabel hmethod hread hstuck hrec =>
      have hstatus : (ServerImpl.booted events).status v = none := by
        unfold ServerImpl.status
        rw [unsupported_lua hroute hmethod]
        rcases hstuck with ⟨d, t, ht⟩ | ⟨t, ht⟩
        · simp [ht]
        · simp [ht]
      simp [ServerImpl.Quiet, ServerImpl.isError, hroute, hmethod, hstatus, hread]
  | @directory path dir body a b c sampled hroute hlabel hreplied =>
      have hstatus := hreplied.status (by unfold ServerImpl.unsupported; rw [hroute])
      unfold ServerImpl.Quiet ServerImpl.isError
      rw [hroute]
      simp only [hstatus]
      cases v.finds path dir with
      | true => simp
      | false => simp

theorem failures_ne_nil {v : Visit Num} (h : srv.failed v = true) : srv.failures v ≠ [] := by
  unfold ServerImpl.failed at h
  obtain ⟨name, hname⟩ := Option.isSome_iff_exists.mp h
  unfold ServerImpl.failures
  rw [hname]
  exact List.cons_ne_nil _ _

/-- A route that has failed has answered with its error. -/
theorem isError_of_failed (events : List BootEvent) {v : Visit Num}
    (hends : (ServerImpl.booted events).Ends v) (hfailed : (ServerImpl.booted events).failed v = true) :
    (ServerImpl.booted events).isError v = true := by
  have hne := failures_ne_nil hfailed
  cases course events hends with
  | unsupported hv hdied => exact absurd (failures_unsupported hv (.inl ⟨_, _, hdied⟩)) hne
  | notFound hroute hreplied => exact absurd (failures_notFound hroute) hne
  | stuck hroute hlabel hmethod hread hstuck hrec => exact absurd (failures_stuck hroute hstuck) hne
  | @answered func a b c hroute hlabel hmethod hans hreplied =>
      have hstatus := hreplied.status (unsupported_lua hroute hmethod)
      -- a route that has returned failed only without a reply of its handler
      have hfails : v.env.fails func v.inc.request = true := by
        by_contra hnot
        obtain ⟨t, ht, -⟩ := hreplied
        exact hne (by rw [failures_lua hroute ht, if_neg hnot])
      unfold ServerImpl.isError
      rw [hroute]
      simp only [hstatus, luaReply_of_fails hfails]
      rfl
  | @directory path dir body a b c sampled hroute hlabel hreplied =>
      have hstatus := hreplied.status (by unfold ServerImpl.unsupported; rw [hroute])
      have hfinds : v.finds path dir = false := by
        by_contra hnot
        exact hne (by rw [failures_directory hroute]; simp [hnot])
      unfold ServerImpl.isError
      rw [hroute]
      simp only [hstatus, hfinds]
      rfl

/-- **THE ERROR METERS ARE RIGHT ONLY WHILE THEY STAND STILL.**  For every
bootstrap and every sequence of requests whose handling comes to an end, the
meters count what their names say if and only if no request asks for an answer
that has a counter. -/
theorem error_metrics_exact (events : List BootEvent) (vs : List (Visit Num))
    (hends : ∀ v ∈ vs, (ServerImpl.booted events).Ends v) :
    ErrorsCounted events vs ↔ ∀ v ∈ vs, (ServerImpl.booted events).Quiet v := by
  obtain ⟨herrors, hnotImpl, hroutes⟩ := meters_count events hends
  have hfailed : ∀ v ∈ vs, (ServerImpl.booted events).isError v = false →
      (ServerImpl.booted events).failed v = false := by
    intro v hv herr
    by_contra hnot
    rw [isError_of_failed events (hends v hv) (by simpa using hnot)] at herr
    cases herr
  constructor
  · intro hcounted v hv
    -- the meter "errors" stands at zero, so no route has answered with an error
    have hnone : vs.countP (ServerImpl.booted events).isError = 0 := hcounted.errors.symm.trans herrors
    have herr : ∀ u ∈ vs, (ServerImpl.booted events).isError u = false :=
      fun u hu => by simpa using List.countP_eq_zero.mp hnone u hu
    -- then no route has failed, and "not_implemented" stands at zero as well
    have hquiet : vs.countP (ServerImpl.booted events).failed = 0 :=
      List.countP_eq_zero.mpr (fun u hu => by simp [hfailed u hu (herr u hu)])
    have hzero := hcounted.notImplemented.symm.trans (hnotImpl.trans hquiet)
    have hstatus := List.countP_eq_zero.mp hzero v hv
    exact (quiet_iff events (hends v hv)).mpr ⟨herr v hv, by simpa using hstatus⟩
  · intro hquiet
    have hfacts := fun v hv => (quiet_iff events (hends v hv)).mp (hquiet v hv)
    have hnone : vs.countP (ServerImpl.booted events).isError = 0 :=
      List.countP_eq_zero.mpr (fun v hv => by simp [(hfacts v hv).1])
    have hstatus : vs.countP (fun v => (ServerImpl.booted events).status v == some 501) = 0 :=
      List.countP_eq_zero.mpr (fun v hv => by simpa using (hfacts v hv).2)
    have hzero : vs.countP (ServerImpl.booted events).failed = 0 :=
      List.countP_eq_zero.mpr (fun v hv => by simp [hfailed v hv (hfacts v hv).1])
    -- all five numbers are zero
    rw [hzero] at hnotImpl hroutes
    exact ⟨herrors.trans hnone.symm, hnotImpl.trans hstatus.symm, herrors.trans hroutes.symm⟩

/-- Two requests for a file that the cache has. -/
theorem error_metrics_exact_file :
    let file : FsNode := .file { size := 1, time := 0, data := bytes "x", readable := true }
    let a : EntryName := ⟨bytes "a", by decide, by decide, by decide, by decide⟩
    let events : List BootEvent :=
      [.addDirectoryRoute (bytes "/static") (bytes "/srv") (some (.directory [(a, file)]))]
    let v : Visit Int :=
      { env := { engine := { getState := .ok {}, call := fun h _ _ => ⟨h, .returned []⟩ }
                 getFile := (ServerImpl.booted events).fileCache.fileMap }
        inc := .http
          { method := bytes "GET", path := bytes "/static/a", headers := [], body := []
            remoteAddr := [], remoteIsV4 := true } }
    ErrorsCounted events [v, v] := by
  intro file a events v
  have hroute : (ServerImpl.booted events).routeOf v.inc
      = some (.directory (bytes "/static/") (bytes "/srv/") 4 5 6) := by decide +kernel
  have hfinds : v.finds (bytes "/static/") (bytes "/srv/") = true := by decide +kernel
  have hvisit : (ServerImpl.booted events).status v = some 200 := by decide +kernel
  have hends : (ServerImpl.booted events).Ends v := by
    intro t ht
    unfold ServerImpl.status at hvisit
    rw [ht] at hvisit
    split at hvisit <;> cases hvisit
  have hquiet : (ServerImpl.booted events).Quiet v := by
    unfold ServerImpl.Quiet
    rw [hroute]
    exact hfinds
  refine (error_metrics_exact events [v, v] ?_).mpr ?_
  · intro u hu
    rcases List.mem_pair.mp hu with rfl | rfl <;> exact hends
  · intro u hu
    rcases List.mem_pair.mp hu with rfl | rfl <;> exact hquiet

/-- **A FAILED REQUEST IS NOT IMPLEMENTED.**  The handler of a route is not
defined, so the route answers with 500: the meter "errors" stays at zero, and
"not_implemented" counts the request. -/
theorem failed_request_not_implemented :
    let events : List BootEvent := [.addRoute (bytes "/") (bytes "handler")]
    let v : Visit Int :=
      { env := { engine := { getState := .ok {}, call := fun h _ _ => ⟨h, .returned []⟩ } }
        inc := .http
          { method := bytes "GET", path := bytes "/", headers := [], body := []
            remoteAddr := [], remoteIsV4 := true } }
    (ServerImpl.booted events).status v = some 500 ∧
      (ServerImpl.booted events).increments [v] (bytes "errors") = 0 ∧
      (ServerImpl.booted events).increments [v] (bytes "not_implemented") = 1 ∧
      (ServerImpl.booted events).increments [v] (bytes "errors_handler") = 1 ∧
      ¬ ErrorsCounted events [v] := by
  intro events v
  have hzero : (ServerImpl.booted events).increments [v] (bytes "errors") = 0 := by decide +kernel
  have herror : [v].countP (ServerImpl.booted events).isError = 1 := by decide +kernel
  refine ⟨by decide +kernel, hzero, by decide +kernel, by decide +kernel, ?_⟩
  intro hcounted
  have herrors := hcounted.errors
  rw [hzero, herror] at herrors
  cases herrors

end Visits

end Metered

end Petrel
