/-
  Petrel.Core.RequestMetrics — what the request meters and the timers count.

  Beside the error meters the server has a meter "requests" and a timer "times",
  and every route a meter and a timer of its own; routes with one label share
  them.  A Lua route counts a request before it handles it, a directory route
  when it has found the file.  The times of the requests of a sample are
  measured, by one object for both timers.

  Main results:
    * `visit_books`           — all metrics that one request records.
    * `request_metrics_exact` — the meters and timers of the routes over every
      sequence of requests, and that the totals are their sums.
-/

import Petrel.Core.ErrorMetrics

namespace Petrel

open Framework

/-! ## §1. The labels. -/

/-- The label of the metrics that a registration of a route asks for. -/
def BootEvent.label : BootEvent → Option Bytes
  | .addRoute _ func => some func
  | .addDirectoryRoute _ _ _ => some (bytes "static_files")
  | .refresh _ => none

/-- The labels of all routes. -/
def routeLabels (events : List BootEvent) : List Bytes := (events.filterMap BootEvent.label).dedup

/-- A label with an error meter is the label of a route. -/
theorem mem_routeLabels {events : List BootEvent} {label : Bytes}
    (h : bytes "errors_" ++ label ∈ errorNames events) : label ∈ routeLabels events := by
  obtain ⟨event, hevent, hname⟩ := List.mem_filterMap.mp (List.mem_dedup.mp h)
  refine List.mem_dedup.mpr (List.mem_filterMap.mpr ⟨event, hevent, ?_⟩)
  cases event with
  | addRoute path func => exact congrArg some (List.append_cancel_left (Option.some.inj hname))
  | addDirectoryRoute path dir node =>
      have hlabel : bytes "errors_" ++ bytes "static_files" = bytes "errors_" ++ label :=
        Option.some.inj hname
      exact congrArg some (List.append_cancel_left hlabel)
  | refresh u => cases hname

section Books

variable {Num : Type} [DecidableEq Num] [LuaNumber Num]

/-- The label under which a request is counted. -/
def ServerImpl.requestLabel (srv : ServerImpl) (v : Visit Num) : Option Bytes :=
  match srv.routeOf v.inc with
  | some (.lua func _ _ _) => if v.inc.request.method = .other then none else some func
  | some (.directory path dir _ _ _) => if v.finds path dir then some (bytes "static_files") else none
  | _ => none

/-- The label under which the time of a request is measured. -/
def ServerImpl.timedLabel (srv : ServerImpl) (v : Visit Num) : Option Bytes :=
  match srv.routeOf v.inc, srv.visit v with
  | some (.lua func _ _ _), .returned _ _ => if v.env.sampled then some func else none
  | some (.directory _ _ _ _ _), _ =>
      if v.env.sampled && v.inc.request.method == .get then some (bytes "static_files") else none
  | _, _ => none

/-- A metric of the server and the one of a route. -/
def bothNames (name : Bytes) : Option Bytes → List Bytes
  | some label => [name, name ++ bytes "_" ++ label]
  | none => []

/-- The names of the metrics that a request records. -/
def ServerImpl.books (srv : ServerImpl) (v : Visit Num) : List Bytes :=
  bothNames (bytes "requests") (srv.requestLabel v) ++ srv.failures v ++
    bothNames (bytes "times") (srv.timedLabel v)

/-- How often the requests update the timer under a name. -/
def ServerImpl.timings (srv : ServerImpl) (vs : List (Visit Num)) (name : Bytes) : Nat :=
  match srv.registry.getMetric .timer name with
  | some id => (vs.flatMap (fun v => (srv.visit v).state.recorded)).count id
  | none => 0

/-! ## §2. What one request records. -/

variable {events : List BootEvent}

/-- What a request to a directory route records. -/
theorem visit_directory_timed {v : Visit Num} {path dir : Bytes} {a b c : MetricId}
    (hroute : (ServerImpl.booted events).routeOf v.inc = some (.directory path dir a b c)) :
    ∃ t, (ServerImpl.booted events).visit v = .returned () t ∧
      t.recorded = ((ServerImpl.booted events).directoryMetrics (v.finds path dir) a b ++
        (ServerImpl.booted events).timersOf (v.env.sampled && v.inc.request.method == .get) c).reduceOption := by
  obtain ⟨⟨rel, hrel⟩, -, p, d, node, -, hp, -⟩ := routeOf_prefix hroute
  have hpath : path ≠ [] := hp ▸ withSlash_ne_nil p
  have hreplied := directoryRoute_replied (metered_booted events).ok v.env hpath dir rel a b c
    (s := .start v.inc.request) (fresh_request v.inc) hrel.symm
  have hfound : decide ((directoryReply v.env v.inc.request.method path dir rel).1 = 200) =
      v.finds path dir := by
    rw [directoryReply_status v hrel.symm dir]
    cases v.finds path dir <;> decide
  obtain ⟨t, ht, -, hrec⟩ := hreplied
  refine ⟨t, ?_, ?_⟩
  · unfold ServerImpl.visit
    rw [serve_eq, hroute]
    exact ht
  · rw [← hfound]
    exact hrec

section Labelled

omit [DecidableEq Num] [LuaNumber Num]

variable {srv : ServerImpl} {label : Bytes} {a b c : MetricId}

theorem requests_names (h : srv.Metered events) (hlabel : Labelled srv.registry.metrics label a b c) :
    [srv.metricRequests, some a] =
      (bothNames (bytes "requests") (some label)).map srv.registry.metrics := by
  rw [h.requests, ← hlabel.1]
  rfl

theorem failure_names (h : srv.Metered events) (hlabel : Labelled srv.registry.metrics label a b c)
    (failed : Bool) :
    srv.failureOf failed b =
      (if failed then [bytes "not_implemented", bytes "errors_" ++ label] else []).map
        srv.registry.metrics := by
  cases failed with
  | false => rfl
  | true =>
      show [srv.metricErrors, some b] = _
      rw [h.errors, ← hlabel.2.1]
      rfl

theorem timers_names (h : srv.Metered events) (hlabel : Labelled srv.registry.metrics label a b c)
    (sampled : Bool) :
    srv.timersOf sampled c =
      (bothNames (bytes "times") (if sampled then some label else none)).map srv.registry.metrics := by
  cases sampled with
  | false => rfl
  | true =>
      show [srv.metricTimes, some c] = _
      rw [h.times, ← hlabel.2.2]
      rfl

end Labelled

/-- **All that a request records**, under the names of the metrics. -/
theorem visit_books (events : List BootEvent) {v : Visit Num} (hends : (ServerImpl.booted events).Ends v) :
    ((ServerImpl.booted events).visit v).state.recorded =
      (((ServerImpl.booted events).books v).map (ServerImpl.booted events).registry.metrics).reduceOption := by
  have h := metered_booted events
  unfold ServerImpl.books
  rw [List.map_append, List.map_append]
  cases course events hends with
  | unsupported hv hdied =>
      have hnone : (ServerImpl.booted events).requestLabel v = none ∧
          (ServerImpl.booted events).timedLabel v = none := by
        unfold ServerImpl.unsupported at hv
        unfold ServerImpl.requestLabel ServerImpl.timedLabel
        rw [hdied]
        cases hroute : (ServerImpl.booted events).routeOf v.inc with
        | none => exact ⟨rfl, rfl⟩
        | some func =>
            rw [hroute] at hv
            cases func with
            | lua func a b c => exact ⟨if_pos (by simpa using hv), rfl⟩
            | empty => cases hv
            | notFound => cases hv
            | directory path dir a b c => cases hv
      rw [hnone.1, hnone.2, failures_unsupported hv (.inl ⟨_, _, hdied⟩), hdied]
      rfl
  | notFound hroute hreplied =>
      obtain ⟨t, ht, -, hrec⟩ := hreplied
      rw [failures_notFound hroute, ht]
      unfold ServerImpl.requestLabel ServerImpl.timedLabel
      rw [hroute]
      exact hrec
  | @answered func a b c hroute hlabel hmethod hans hreplied =>
      obtain ⟨t, ht, -, hrec⟩ := hreplied
      have hrequest : (ServerImpl.booted events).requestLabel v = some func := by
        unfold ServerImpl.requestLabel
        rw [hroute]
        exact if_neg hmethod
      have htimed : (ServerImpl.booted events).timedLabel v = if v.env.sampled then some func else none := by
        unfold ServerImpl.timedLabel
        rw [hroute, ht]
      rw [hrequest, htimed, failures_lua hroute ht, ← requests_names h hlabel, ← failure_names h hlabel,
        ← timers_names h hlabel, ht, List.append_assoc]
      exact hrec
  | @stuck func a b c hroute hlabel hmethod hread hstuck hrec =>
      have hrequest : (ServerImpl.booted events).requestLabel v = some func := by
        unfold ServerImpl.requestLabel
        rw [hroute]
        exact if_neg hmethod
      have htimed : (ServerImpl.booted events).timedLabel v = none := by
        unfold ServerImpl.timedLabel
        rw [hroute]
        rcases hstuck with ⟨d, t, ht⟩ | ⟨t, ht⟩
        · rw [ht]
        · rw [ht]
      rw [hrequest, htimed, failures_stuck hroute hstuck, ← requests_names h hlabel, hrec]
      simp [bothNames]
  | @directory path dir body a b c sampled hroute hlabel hreplied =>
      obtain ⟨t, ht, hrec⟩ := visit_directory_timed hroute
      have htimed : (ServerImpl.booted events).timedLabel v =
          if v.env.sampled && v.inc.request.method == .get then some (bytes "static_files") else none := by
        unfold ServerImpl.timedLabel
        rw [hroute]
      have hrequest : (ServerImpl.booted events).requestLabel v =
          if v.finds path dir then some (bytes "static_files") else none := by
        unfold ServerImpl.requestLabel
        rw [hroute]
      rw [htimed, ← timers_names h hlabel, failures_directory hroute, hrequest, ht]
      refine hrec.trans (congrArg List.reduceOption (congrArg (· ++ _) ?_))
      -- a directory route records the request or the failure
      cases v.finds path dir with
      | true => exact requests_names h hlabel
      | false => exact failure_names h hlabel true

/-! ## §3. What a sequence of requests records. -/

omit [DecidableEq Num] [LuaNumber Num] in
theorem count_bothNames_self (name : Bytes) (label : Option Bytes) :
    (bothNames name label).count name = if label.isSome then 1 else 0 := by
  cases label with
  | none => rfl
  | some l =>
      have hne : name ++ bytes "_" ++ l ≠ name := fun h => by
        have := congrArg List.length h
        simp [show (bytes "_").length = 1 from rfl] at this
      show [name, name ++ bytes "_" ++ l].count name = 1
      rw [List.count_cons_self, List.count_singleton, beq_eq_false_iff_ne.mpr hne]
      rfl

omit [DecidableEq Num] [LuaNumber Num] in
theorem count_bothNames_label (name : Bytes) (label : Option Bytes) (l : Bytes) :
    (bothNames name label).count (name ++ bytes "_" ++ l) = if label = some l then 1 else 0 := by
  cases label with
  | none => rfl
  | some l' =>
      have hne : name ≠ name ++ bytes "_" ++ l := fun h => by
        have := congrArg List.length h
        simp [show (bytes "_").length = 1 from rfl] at this
      show [name, name ++ bytes "_" ++ l'].count (name ++ bytes "_" ++ l) = _
      rw [List.count_cons_of_ne hne, List.count_singleton]
      by_cases hl : l' = l
      · simp [hl]
      · simp [hl]

omit [DecidableEq Num] [LuaNumber Num] in
theorem head_bothNames {name : Bytes} {c : UInt8} (hc : name.head? = some c) (label : Option Bytes) :
    ∀ n ∈ bothNames name label, n.head? = some c := by
  cases label with
  | none => exact fun n hn => nomatch hn
  | some l =>
      intro n hn
      rcases List.mem_pair.mp hn with rfl | rfl
      · exact hc
      · rw [List.append_assoc, List.head?_append, hc]
        rfl

theorem isErrorName_failures (events : List BootEvent) {v : Visit Num}
    (hends : (ServerImpl.booted events).Ends v) :
    ∀ n ∈ (ServerImpl.booted events).failures v, isErrorName n = true := by
  obtain ⟨ms, -, names, -, hfilter, -⟩ := visit_booked events hends
  intro n hn
  rw [← hfilter] at hn
  exact List.of_mem_filter hn

/-- The request meters are told from the other metrics by their first letter. -/
theorem count_books_requests (events : List BootEvent) {v : Visit Num}
    (hends : (ServerImpl.booted events).Ends v) {name : Bytes} (hname : name.head? = some (byte 'r')) :
    ((ServerImpl.booted events).books v).count name =
      (bothNames (bytes "requests") ((ServerImpl.booted events).requestLabel v)).count name := by
  have hfailures : name ∉ (ServerImpl.booted events).failures v := fun hmem => by
    have := isErrorName_failures events hends name hmem
    simp [isErrorName, hname] at this
  have htimes : name ∉ bothNames (bytes "times") ((ServerImpl.booted events).timedLabel v) := fun hmem => by
    have := head_bothNames (c := byte 't') rfl _ name hmem
    rw [hname] at this
    exact absurd (Option.some.inj this) (by decide)
  unfold ServerImpl.books
  rw [List.count_append, List.count_append, List.count_eq_zero_of_not_mem hfailures,
    List.count_eq_zero_of_not_mem htimes, Nat.add_zero]

theorem count_books_times (events : List BootEvent) {v : Visit Num}
    (hends : (ServerImpl.booted events).Ends v) {name : Bytes} (hname : name.head? = some (byte 't')) :
    ((ServerImpl.booted events).books v).count name =
      (bothNames (bytes "times") ((ServerImpl.booted events).timedLabel v)).count name := by
  have hfailures : name ∉ (ServerImpl.booted events).failures v := fun hmem => by
    have := isErrorName_failures events hends name hmem
    simp [isErrorName, hname] at this
  have hrequests : name ∉ bothNames (bytes "requests") ((ServerImpl.booted events).requestLabel v) :=
    fun hmem => by
      have := head_bothNames (c := byte 'r') rfl _ name hmem
      rw [hname] at this
      exact absurd (Option.some.inj this) (by decide)
  unfold ServerImpl.books
  rw [List.count_append, List.count_append, List.count_eq_zero_of_not_mem hfailures,
    List.count_eq_zero_of_not_mem hrequests, Nat.zero_add]

/-- The object of a name is recorded as often as the name is in the books. -/
theorem count_recorded (events : List BootEvent) {vs : List (Visit Num)}
    (hends : ∀ v ∈ vs, (ServerImpl.booted events).Ends v) {name : Bytes} {id : MetricId}
    (hname : (ServerImpl.booted events).registry.metrics name = some id) :
    (vs.flatMap (fun v => ((ServerImpl.booted events).visit v).state.recorded)).count id =
      (vs.flatMap (ServerImpl.booted events).books).count name := by
  induction vs with
  | nil => rfl
  | cons v vs ih =>
      have hvs := ih fun u hu => hends u (List.mem_cons_of_mem v hu)
      have hv := visit_books events (hends v List.mem_cons_self)
      rw [List.flatMap_cons, List.flatMap_cons, List.count_append, List.count_append, hvs, hv,
        count_objects (metered_booted events).named hname]

/-- A label under which a request is counted or measured is that of a route,
whose metrics are registered. -/
theorem labelled_of_label (events : List BootEvent) {v : Visit Num} {l : Bytes}
    (hl : (ServerImpl.booted events).requestLabel v = some l ∨
      (ServerImpl.booted events).timedLabel v = some l) :
    l ∈ routeLabels events ∧ ∃ a b c, Labelled (ServerImpl.booted events).registry.metrics l a b c := by
  unfold ServerImpl.requestLabel ServerImpl.timedLabel at hl
  rcases (metered_booted events).routeOf_cases v.inc with hroute | hroute | ⟨func, hroute, hfunc⟩
  · rw [hroute] at hl
    rcases hl with hl | hl <;> cases hl
  · rw [hroute] at hl
    rcases hl with hl | hl <;> cases hl
  · rw [hroute] at hl
    cases func with
    | empty => exact hfunc.elim
    | notFound => exact hfunc.elim
    | lua func a b c =>
        have heq : func = l := by
          rcases hl with hl | hl
          · exact Option.some.inj (Option.ite_none_left_eq_some.mp hl).2
          · cases hvisit : (ServerImpl.booted events).visit v with
            | returned u t =>
                rw [hvisit] at hl
                exact (Option.ite_some_none_eq_some.mp hl).2
            | threw e t => simp [hvisit] at hl
            | died d t => simp [hvisit] at hl
            | exhausted t => simp [hvisit] at hl
        subst heq
        exact ⟨mem_routeLabels hfunc.1, a, b, c, hfunc.2⟩
    | directory path dir a b c =>
        have heq : bytes "static_files" = l := by
          rcases hl with hl | hl
          · exact (Option.ite_some_none_eq_some.mp hl).2
          · exact (Option.ite_some_none_eq_some.mp hl).2
        subst heq
        exact ⟨mem_routeLabels hfunc.1, a, b, c, hfunc.2⟩

/-- A metric that each of certain requests records once, and no other request. -/
theorem count_metric (events : List BootEvent) {vs : List (Visit Num)}
    (hends : ∀ v ∈ vs, (ServerImpl.booted events).Ends v) {name : Bytes} {T : MetricKind}
    (hkind : metricKind name = T) {p : Visit Num → Bool}
    (hcount : ∀ v ∈ vs, ((ServerImpl.booted events).books v).count name = if p v then 1 else 0)
    (hsome : ∀ v ∈ vs, p v = true → ((ServerImpl.booted events).registry.metrics name).isSome = true) :
    (match (ServerImpl.booted events).registry.getMetric T name with
      | some id => (vs.flatMap (fun v => ((ServerImpl.booted events).visit v).state.recorded)).count id
      | none => 0) = vs.countP p := by
  have hbooks : (vs.flatMap (ServerImpl.booted events).books).count name = vs.countP p := by
    clear hends hsome
    induction vs with
    | nil => rfl
    | cons v vs ih =>
        rw [List.flatMap_cons, List.count_append, hcount v List.mem_cons_self,
          ih fun u hu => hcount u (List.mem_cons_of_mem v hu), List.countP_cons, Nat.add_comm]
  cases hname : (ServerImpl.booted events).registry.metrics name with
  | none =>
      have hget : (ServerImpl.booted events).registry.getMetric T name = none := by
        unfold Registry.getMetric
        rw [hname]
        rfl
      rw [hget]
      refine (List.countP_eq_zero.mpr fun v hv hp => ?_).symm
      have := hsome v hv hp
      rw [hname] at this
      cases this
  | some id =>
      rw [← hkind, (metered_booted events).named.getMetric hname]
      exact (count_recorded events hends hname).trans hbooks

omit [DecidableEq Num] [LuaNumber Num] in
/-- What is counted under the labels of all routes, label by label. -/
theorem sum_labels {labels : List Bytes} (hnodup : labels.Nodup) {vs : List (Visit Num)}
    {label : Visit Num → Option Bytes} (hmem : ∀ v ∈ vs, ∀ l, label v = some l → l ∈ labels) :
    (labels.map fun l => vs.countP fun v => label v = some l).sum =
      vs.countP fun v => (label v).isSome := by
  have hcount : ∀ l, (vs.countP fun v => label v = some l) = (vs.filterMap label).count l := by
    intro l
    rw [List.count_filterMap]
    congr 1
    funext v
    cases label v with
    | none => rfl
    | some l' => exact (beq_eq_decide (some l') (some l)).symm
  have hall : (vs.filterMap label).countP labels.contains = (vs.filterMap label).length :=
    List.countP_eq_length.mpr fun l hl => by
      obtain ⟨v, hv, hvl⟩ := List.mem_filterMap.mp hl
      exact List.contains_iff_mem.mpr (hmem v hv l hvl)
  have hlength : (vs.filterMap label).length = vs.countP fun v => (label v).isSome := by
    rw [← List.countP_true, List.countP_filterMap]
    congr 1
    funext v
    cases label v <;> rfl
  simp only [hcount]
  exact (sum_count_of_nodup hnodup _).trans (hall.trans hlength)

/-- **The meters and timers of the requests.**  For every set of routes and
every sequence of requests: the meter of a label has counted the requests that
go to its Lua routes with GET or POST, and for "static_files" those for which a
directory route has found the file; the timer of a label has been updated once
for each of its requests whose time was measured; and the meter "requests" and
the timer "times" are the sums of those of the routes. -/
theorem request_metrics_exact (events : List BootEvent) (vs : List (Visit Num))
    (hends : ∀ v ∈ vs, (ServerImpl.booted events).Ends v) :
    let srv := ServerImpl.booted events
    (∀ label, srv.increments vs (bytes "requests_" ++ label) =
      vs.countP fun v => srv.requestLabel v = some label) ∧
    srv.increments vs (bytes "requests") =
      ((routeLabels events).map fun label => srv.increments vs (bytes "requests_" ++ label)).sum ∧
    (∀ label, srv.timings vs (bytes "times_" ++ label) =
      vs.countP fun v => srv.timedLabel v = some label) ∧
    srv.timings vs (bytes "times") =
      ((routeLabels events).map fun label => srv.timings vs (bytes "times_" ++ label)).sum := by
  intro srv
  have h := metered_booted events
  have hlabels : ∀ v : Visit Num, ∀ l, (srv.requestLabel v = some l ∨ srv.timedLabel v = some l) →
      l ∈ routeLabels events := fun v l hl => (labelled_of_label events hl).1
  have hnodup : (routeLabels events).Nodup := List.nodup_dedup _
  have hrequest : ∀ label, srv.increments vs (bytes "requests_" ++ label) =
      vs.countP fun v => srv.requestLabel v = some label := by
    intro label
    have hhead : (bytes "requests_" ++ label).head? = some (byte 'r') := rfl
    refine count_metric events hends (metricKind_append (c := byte 'r') rfl label) (fun v hv => ?_)
      fun v hv hp => ?_
    · rw [count_books_requests events (hends v hv) hhead]
      refine (count_bothNames_label (bytes "requests") (srv.requestLabel v) label).trans ?_
      by_cases hl : srv.requestLabel v = some label
      · simp [hl]
      · simp [hl]
    · obtain ⟨-, a, b, c, ha, -⟩ := labelled_of_label events (.inl (of_decide_eq_true hp))
      rw [ha]
      rfl
  have htimed : ∀ label, srv.timings vs (bytes "times_" ++ label) =
      vs.countP fun v => srv.timedLabel v = some label := by
    intro label
    have hhead : (bytes "times_" ++ label).head? = some (byte 't') := rfl
    refine count_metric events hends (metricKind_append (c := byte 't') rfl label) (fun v hv => ?_)
      fun v hv hp => ?_
    · rw [count_books_times events (hends v hv) hhead]
      refine (count_bothNames_label (bytes "times") (srv.timedLabel v) label).trans ?_
      by_cases hl : srv.timedLabel v = some label
      · simp [hl]
      · simp [hl]
    · obtain ⟨-, a, b, c, -, -, hc⟩ := labelled_of_label events (.inr (of_decide_eq_true hp))
      rw [hc]
      rfl
  refine ⟨hrequest, ?_, htimed, ?_⟩
  · simp only [hrequest]
    rw [sum_labels hnodup fun v _ l hl => hlabels v l (.inl hl)]
    refine count_metric events hends (by decide) (fun v hv => ?_) fun v hv hp => ?_
    · rw [count_books_requests events (hends v hv) rfl]
      exact count_bothNames_self _ _
    · exact h.requests ▸ h.ok.requests
  · simp only [htimed]
    rw [sum_labels hnodup fun v _ l hl => hlabels v l (.inr hl)]
    refine count_metric events hends (by decide) (fun v hv => ?_) fun v hv hp => ?_
    · rw [count_books_times events (hends v hv) rfl]
      exact count_bothNames_self _ _
    · exact h.times ▸ h.ok.times

end Books

/-- The events of a server with a Lua route and a directory with one file. -/
def twoRoutes : List BootEvent :=
  [.addRoute (bytes "/api/") (bytes "api"),
    .addDirectoryRoute (bytes "/files") (bytes "/srv") (some (.directory
      [(⟨bytes "page", by decide, by decide, by decide, by decide⟩,
        .file { size := 1, time := 0, data := bytes "x", readable := true })]))]

/-- A measured GET for a path, with no Lua state to handle it. -/
def measuredGet (path : Bytes) : Visit Int where
  env := { engine := { getState := .error [], call := fun h _ _ => ⟨h, .returned []⟩ }
           sampled := true
           getFile := (ServerImpl.booted twoRoutes).fileCache.fileMap }
  inc := .http
    { method := bytes "GET", path := path, headers := [], body := [], remoteAddr := [], remoteIsV4 := true }

/-- Three requests: the Lua route fails, and the directory has one of two files. -/
theorem request_metrics_exact_three :
    let srv := ServerImpl.booted twoRoutes
    let vs := [measuredGet (bytes "/api/x"), measuredGet (bytes "/files/page"), measuredGet (bytes "/files/b")]
    (∀ label, srv.increments vs (bytes "requests_" ++ label) =
      vs.countP fun v => srv.requestLabel v = some label) ∧
    srv.increments vs (bytes "requests") =
      ((routeLabels twoRoutes).map fun label => srv.increments vs (bytes "requests_" ++ label)).sum ∧
    (∀ label, srv.timings vs (bytes "times_" ++ label) =
      vs.countP fun v => srv.timedLabel v = some label) ∧
    srv.timings vs (bytes "times") =
      ((routeLabels twoRoutes).map fun label => srv.timings vs (bytes "times_" ++ label)).sum := by
  intro srv vs
  have hsupported : ∀ v ∈ vs, srv.unsupported v.inc = false := by decide +kernel
  have hanswered : ∀ v ∈ vs, (srv.status v).isSome = true := by decide +kernel
  refine request_metrics_exact twoRoutes vs fun v hv t ht => ?_
  have hstatus := hanswered v hv
  unfold ServerImpl.status at hstatus
  rw [hsupported v hv, ht] at hstatus
  cases hstatus

end Petrel
