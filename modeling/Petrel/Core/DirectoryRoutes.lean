/-
  Petrel.Core.DirectoryRoutes — directory routes stay in their directories.

  The server does not look at the segments of a request path.  What keeps a
  request for "/static/../secret" from leaving the directory is that such a
  path is the name of no cached file: every name in the cache was made by a
  scan, or was there before, and a scan joins entry names with slashes.

  The cache answers while its refresh thread and the other workers go on, so
  the names are followed through all runs of the coherence machine.

  Main results:
    * `cached_clean` — what `get_file` hands out is under a clean key.
    * `directoryRoute_replied` — what a directory route does and records.
    * `directory_route_confined` — both, for every request and bootstrap.
-/

import Petrel.Core.ServerImpl

namespace Petrel

open Framework

/-! ## §1. Bootstraps with absolute directories. -/

/-- The refresh thread adds names from scans of the directories, and loads or
removes what is cached already. -/
def Refreshes (c : FileCache) (m : FileMap Bytes CachedFile) (u : FileUpdate Bytes CachedFile) : Prop :=
  ∀ f, u.file = some f → (m u.name).isSome = true ∨ ∃ dir ∈ c.directories, Below dir u.name

/-- Directory routes have non-empty strings and absolute directories. -/
def BootEvent.Clean (c : FileCache) : BootEvent → Prop
  | .addRoute _ _ => True
  | .addDirectoryRoute path dir _ => path ≠ [] ∧ dir ≠ [] ∧ AbsoluteDir dir
  | .refresh u => Refreshes c c.fileMap u

/-- The events of a bootstrap are clean, each when it happens. -/
def CleanBoot (srv : ServerImpl) : List BootEvent → Prop
  | [] => True
  | event :: events => event.Clean srv.fileCache ∧ CleanBoot (srv.boot event) events

theorem CleanBoot.directory {srv : ServerImpl} {events : List BootEvent} (h : CleanBoot srv events)
    {path dir : Bytes} {node : Option FsNode} (hmem : .addDirectoryRoute path dir node ∈ events) :
    path ≠ [] ∧ dir ≠ [] ∧ AbsoluteDir dir := by
  induction events generalizing srv with
  | nil => cases hmem
  | cons event events ih =>
      rcases List.mem_cons.mp hmem with heq | hmem
      · subst heq
        exact h.1
      · exact ih h.2 hmem

theorem withSlash_getLast? (s : Bytes) : (withSlash s).getLast? = some (byte '/') := by
  unfold withSlash
  split
  · assumption
  · exact List.getLast?_concat ..

theorem withSlash_ne_nil (s : Bytes) : withSlash s ≠ [] := by
  intro h
  have := withSlash_getLast? s
  rw [h] at this
  cases this

/-- The slash at the end does not change the segments of a directory. -/
theorem dirSegments_withSlash (s : Bytes) : dirSegments (withSlash s) = dirSegments s := by
  unfold withSlash
  by_cases h : s.getLast? = some (byte '/')
  · rw [if_pos h]
  · rw [if_neg h]
    unfold dirSegments
    rw [if_neg h, if_pos (List.getLast?_concat ..), List.dropLast_concat]

theorem AbsoluteDir.withSlash {dir : Bytes} (h : AbsoluteDir dir) : AbsoluteDir (withSlash dir) := by
  unfold AbsoluteDir
  rw [dirSegments_withSlash]
  exact h

/-! ## §2. The names in the cache. -/

/-- The cached names are clean and the registered directories absolute. -/
structure CleanCache (c : FileCache) : Prop where
  names : FileMap.Names CleanKey c.fileMap
  directories : ∀ dir ∈ c.directories, AbsoluteDir dir

/-- An update of the refresh thread assigns clean names only. -/
theorem Refreshes.clean {c : FileCache} {m : FileMap Bytes CachedFile}
    (hdirs : ∀ dir ∈ c.directories, AbsoluteDir dir) (hm : FileMap.Names CleanKey m)
    {u : FileUpdate Bytes CachedFile} (h : Refreshes c m u) : FileUpdate.Names CleanKey u := by
  intro f hf
  rcases h f hf with hsome | ⟨dir, hdir, hbelow⟩
  · obtain ⟨g, hg⟩ := Option.isSome_iff_exists.mp hsome
    exact hm u.name g hg
  · exact cleanKey_of_below (hdirs dir hdir) hbelow

theorem cleanCache_addDirectory {c : FileCache} (h : CleanCache c) {dir : Bytes}
    (hdir : AbsoluteDir dir) (node : Option FsNode) : CleanCache (c.addDirectory dir node).2 := by
  refine ⟨addDirectory_names h.names (fun k hk => cleanKey_of_below hdir hk) node, ?_⟩
  unfold FileCache.addDirectory
  cases node with
  | none => exact h.directories
  | some node =>
      dsimp only
      -- the directory is registered only where the scan found one
      rcases node.scan dir c.fileMap with ⟨ok, m⟩
      cases ok with
      | false => exact h.directories
      | true =>
          intro d hd
          rcases List.mem_cons.mp hd with rfl | hd
          · exact hdir
          · exact h.directories d (List.mem_of_mem_erase hd)

theorem cleanCache_boot {srv : ServerImpl} (h : CleanCache srv.fileCache) {event : BootEvent}
    (hevent : event.Clean srv.fileCache) : CleanCache (srv.boot event).fileCache := by
  -- a new route does not touch the file cache
  have hinsert : ∀ (srv : ServerImpl) path func, (srv.insertRoute path func).2.fileCache = srv.fileCache := by
    intro srv path func
    obtain ⟨router, n, heq⟩ := insertRoute_frame srv path func
    rw [heq]
  cases event with
  | addRoute path func =>
      show CleanCache (srv.addRoute path func).2.fileCache
      unfold ServerImpl.addRoute
      rw [hinsert]
      exact h
  | addDirectoryRoute path dir node =>
      have hadd := cleanCache_addDirectory h hevent.2.2.withSlash node
      show CleanCache (srv.addDirectoryRoute (withSlash path) (withSlash dir) node).2.fileCache
      unfold ServerImpl.addDirectoryRoute
      rcases hres : srv.fileCache.addDirectory (withSlash dir) node with ⟨ok, fileCache⟩
      rw [hres] at hadd
      cases ok with
      | false => exact hadd
      | true =>
          simp only
          rw [hinsert]
          exact hadd
  | refresh u =>
      refine ⟨?_, h.directories⟩
      exact FileMap.Names.update h.names (Refreshes.clean h.directories h.names hevent)

/-- **After a clean bootstrap the cache is clean.** -/
theorem cleanCache_booted {events : List BootEvent} (h : CleanBoot ServerImpl.new events) :
    CleanCache (ServerImpl.booted events).fileCache := by
  have hrun : ∀ (events : List BootEvent) (srv : ServerImpl), CleanBoot srv events →
      CleanCache srv.fileCache → CleanCache (events.foldl ServerImpl.boot srv).fileCache := by
    intro events
    induction events with
    | nil => exact fun _ _ h => h
    | cons event events ih => exact fun srv hboot h => ih _ hboot.2 (cleanCache_boot h hboot.1)
  have hnew : CleanCache ServerImpl.new.fileCache := by
    constructor
    · intro n f hf
      cases hf
    · intro dir hdir
      cases hdir
  exact hrun events _ h hnew

/-! ## §3. What `get_file` hands out. -/

section Served

variable {W : Type} [DecidableEq W] {iosvcs : List W}

/-- The refresh thread while the server runs: each update it starts is one of
a refresh. -/
def RefreshesOnly (c : FileCache) (s : CacheState Bytes CachedFile W)
    (a : CacheAction Bytes CachedFile W) : Prop :=
  ∀ u, a = .start u → Refreshes c s.fileMap u

/-- Every file that `get_file` hands out is, in some state of a run of the
cache, the entry of the name in the main map or in the map of a worker. -/
def GetFileAnswers (iosvcs : List W) (c : FileCache) (getFile : Bytes → Option CachedFile) : Prop :=
  ∀ n f, getFile n = some f →
    ∃ s, (cacheMachine iosvcs c.fileMap).ReachWhen (RefreshesOnly c) s ∧
      (s.fileMap n = some f ∨ ∃ w, (s.worker w).lookup n = some f)

/-- **What `get_file` hands out is under a clean name.** -/
theorem cached_clean {c : FileCache} (h : CleanCache c) {getFile : Bytes → Option CachedFile}
    (hget : GetFileAnswers iosvcs c getFile) {n : Bytes} {f : CachedFile} (hf : getFile n = some f) :
    CleanKey n := by
  obtain ⟨s, hreach, hserved⟩ := hget n f hf
  have hnames : CacheNames CleanKey s := by
    refine names_reach h.names ?_ hreach
    intro s u hs hu
    exact Refreshes.clean h.directories hs.main (hu u rfl)
  rcases hserved with hmain | ⟨w, hlocal⟩
  · exact hnames.main n f hmain
  · exact hnames.lookup hlocal

end Served

/-! ## §4. The directory route. -/

section Routes

variable {Num : Type} [DecidableEq Num] [LuaNumber Num]
variable {P : Bytes → RouteFunc → Prop} {srv : ServerImpl}

/-- The reply of a directory route to the path `path ++ rel`: a file only for
a GET request whose path does not end with a slash. -/
def directoryReply (env : RouteEnv Num) (method : HttpMethod) (path dir rel : Bytes) : Int × Bytes :=
  if method = .get ∧ (path ++ rel).getLast? ≠ some (byte '/') then
    match env.getFile (dir ++ rel) with
    | some f => (200, f.body env.engine.behind)
    | none => (404, [])
  else (404, [])

omit [DecidableEq Num] [LuaNumber Num] in
/-- Behind the path of the route, the substring is in range. -/
theorem findStaticFile_apply (env : RouteEnv Num) {path : Bytes} (hpath : path ≠ []) (dir rel : Bytes)
    (s : Serving Num) :
    findStaticFile env dir path (path ++ rel) s =
      .returned (if (path ++ rel).getLast? = some (byte '/') then none else env.getFile (dir ++ rel)) s := by
  unfold findStaticFile
  cases hlast : (path ++ rel).getLast? with
  | none =>
      -- the path of the request is not empty, as the route's is not
      have hnil := List.getLast?_eq_none_iff.mp hlast
      exact absurd (List.append_eq_nil_iff.mp hnil).1 hpath
  | some c =>
      by_cases hc : c = byte '/'
      · simp [hc]
      · simp [hc]

/-- The metrics of a request to a directory route, the timers apart: a file
that is sent is counted as a request, everything else as a failure. -/
def ServerImpl.directoryMetrics (srv : ServerImpl) (found : Bool) (metricReq metricErr : MetricId) :
    List (Option MetricId) :=
  if found then [srv.metricRequests, some metricReq] else srv.failureOf true metricErr

omit [DecidableEq Num] [LuaNumber Num] in
/-- **A directory route answers every request that begins with its path.** -/
theorem directoryRoute_replied (h : srv.Ok P) (env : RouteEnv Num) {path : Bytes} (hpath : path ≠ [])
    (dir rel : Bytes) (metricReq metricErr metricTimes : MetricId) {s : Serving Num}
    (hfresh : s.handling.req.Fresh) (hreq : s.handling.req.path = path ++ rel) :
    let reply := directoryReply env s.handling.req.method path dir rel
    Replied reply
      (srv.directoryMetrics (decide (reply.1 = 200)) metricReq metricErr ++
        srv.timersOf (env.sampled && s.handling.req.method == .get) metricTimes) s
      (srv.directoryRoute env path dir metricReq metricErr metricTimes s) := by
  -- every way without a file ends like this
  have hfail : Replied (404, []) (srv.directoryMetrics (decide ((404 : Int) = 200)) metricReq metricErr)
      s (srv.noFile metricErr s) :=
    failWith_replied h metricErr hfresh 404
  unfold ServerImpl.directoryRoute directoryReply
  simp only [Code.bind_apply, Code.get_apply, Outcome.andThen_returned, hreq]
  by_cases hmethod : s.handling.req.method = .get
  · simp only [hmethod, if_true, true_and, beq_self_eq_true, Bool.and_true]
    refine timed_replied h _ _ ?_
    simp only [Code.bind_apply, findStaticFile_apply env hpath, Outcome.andThen_returned]
    by_cases hslash : (path ++ rel).getLast? = some (byte '/')
    · simp only [hslash, if_true, ne_eq, not_true_eq_false, if_false]
      exact hfail
    · simp only [hslash, if_false, ne_eq, not_false_eq_true, if_true]
      cases hfile : env.getFile (dir ++ rel) with
      | none => exact hfail
      | some f =>
          obtain ⟨t, ht, hans, hrec⟩ := respond_replied hfresh 200 (f.body env.engine.behind)
          -- the requests are counted behind the response
          obtain ⟨u, hu, hsame, hrecu⟩ := record_apply h.requests t
          obtain ⟨v, hv, hsame', hrecv⟩ := record_apply (m := some metricReq) rfl u
          have hans' : v.handling.req.AnsweredBy 200 (f.body env.engine.behind) := by
            rw [hsame', hsame]
            exact hans
          simp only [Code.bind_apply, ht, hu, hv, Outcome.andThen_returned]
          exact ((show Replied _ [some metricReq] u _ from ⟨v, rfl, hans', hrecv⟩).after hrecu).after hrec
  · have hbeq : (s.handling.req.method == .get) = false := beq_false_of_ne hmethod
    simp only [hmethod, if_false, false_and, hbeq, Bool.and_false]
    rw [show srv.timersOf false metricTimes = [] from rfl, List.append_nil]
    exact hfail

/-! ## §5. No request leaves the directory of its route. -/

/-- What a bootstrap puts into the router: a directory route is under its own
path, and its strings are those of a registration. -/
def Registered (events : List BootEvent) (q : Bytes) : RouteFunc → Prop
  | .directory path dir _ _ _ =>
      q = path ∧ ∃ p d node, .addDirectoryRoute p d node ∈ events ∧
        path = withSlash p ∧ dir = withSlash d
  | _ => True

theorem registered_booted (events : List BootEvent) :
    (ServerImpl.booted events).Ok (Registered events) := by
  refine ok_booted events ?_
  intro event hevent
  cases event with
  | addRoute path func => exact fun _ _ _ => trivial
  | addDirectoryRoute path dir node => exact fun _ _ _ => ⟨rfl, path, dir, node, hevent, rfl, rfl⟩
  | refresh u => trivial

/-- A directory route is found under its path, which the string it was looked
up by begins with. -/
theorem findRoute_directory {events : List BootEvent} {routed path dir : Bytes} {a b c : MetricId}
    (h : (ServerImpl.booted events).router.findRoute routed = .directory path dir a b c) :
    path <+: routed ∧ Registered events path (.directory path dir a b c) := by
  -- the default route is no directory route
  rcases (registered_booted events).findRoute_cases routed with hdefault | ⟨q, hq, hreg⟩
  · rw [h] at hdefault
    cases hdefault
  · rw [h] at hreg
    obtain ⟨rfl, hreg'⟩ := hreg
    exact ⟨hq, rfl, hreg'⟩

/-- The path a request is routed by begins the path it is served by. -/
theorem routeOf_prefix {events : List BootEvent} {inc : Incoming} {path dir : Bytes} {a b c : MetricId}
    (h : (ServerImpl.booted events).routeOf inc = some (.directory path dir a b c)) :
    path <+: inc.request.path ∧ Registered events path (.directory path dir a b c) := by
  cases inc with
  | http r => exact findRoute_directory (Option.some.inj h)
  | http2 r =>
      unfold ServerImpl.routeOf at h
      simp only at h
      split at h
      · obtain ⟨hraw, hreg⟩ := findRoute_directory (Option.some.inj h)
        refine ⟨hraw.trans ?_, hreg⟩
        -- the query comes behind the raw path
        show r.rawPath <+: r.path
        unfold Http2Stream.path
        split
        · exact List.prefix_refl _
        · rw [List.append_assoc]
          exact List.prefix_append _ _
      · cases h

/-- **NO TRAVERSAL.**  A request that the router sends to a directory route
begins with the path of the route and is answered: with 404, or with the
cached file under `dir` and the rest of its path, which is then made of entry
names alone.  So a rest with an empty or a dot segment is answered with 404. -/
theorem directory_route_confined {W : Type} [DecidableEq W] {iosvcs : List W}
    {events : List BootEvent} (hboot : CleanBoot ServerImpl.new events) (env : RouteEnv Num)
    (hget : GetFileAnswers iosvcs (ServerImpl.booted events).fileCache env.getFile)
    (inc : Incoming) {path dir : Bytes} {a b c : MetricId}
    (hroute : (ServerImpl.booted events).routeOf inc = some (.directory path dir a b c)) (fuel : Nat) :
    ∃ rel, inc.request.path = path ++ rel ∧
      ∃ s, (ServerImpl.booted events).serve env fuel inc = .returned () s ∧
        (s.handling.req.AnsweredBy 404 [] ∨
          ∃ f, s.handling.req.AnsweredBy 200 (f.body env.engine.behind) ∧
            env.getFile (dir ++ rel) = some f ∧ rel ≠ [] ∧
            ∀ seg ∈ rel.splitOn (byte '/'), GoodSegment seg) ∧
        ((∃ seg ∈ rel.splitOn (byte '/'), ¬ GoodSegment seg) → s.handling.req.AnsweredBy 404 []) := by
  obtain ⟨⟨rel, hrel⟩, -, p, d, node, hmem, hp, hd⟩ := routeOf_prefix hroute
  have hclean := cleanCache_booted hboot
  have hpath : path ≠ [] := hp ▸ withSlash_ne_nil p
  have hslash : dir.getLast? = some (byte '/') := hd ▸ withSlash_getLast? d
  -- a name that the cache has is clean, and so is its part behind `dir`
  have hgood : ∀ f, env.getFile (dir ++ rel) = some f → ∀ seg ∈ rel.splitOn (byte '/'), GoodSegment seg :=
    fun f hf => segments_of_cleanKey hslash (cached_clean hclean hget hf)
  refine ⟨rel, hrel.symm, ?_⟩
  obtain ⟨s, hs, hans, -⟩ := directoryRoute_replied (registered_booted events) env hpath dir rel a b c
    (s := .start inc.request) (fresh_request inc) hrel.symm
  refine ⟨s, ?_, ?_⟩
  · rw [serve_eq, hroute]
    exact hs
  · -- the reply is a file only where the cache has one
    unfold directoryReply at hans
    split at hans
    · cases hfile : env.getFile (dir ++ rel) with
      | none =>
          rw [hfile] at hans
          exact ⟨.inl hans, fun _ => hans⟩
      | some f =>
          rw [hfile] at hans
          have hsegs := hgood f hfile
          refine ⟨.inr ⟨f, hans, rfl, ne_nil_of_goodSegments hsegs, hsegs⟩, ?_⟩
          intro hbad
          obtain ⟨seg, hseg, hnot⟩ := hbad
          exact absurd (hsegs seg hseg) hnot
    · exact ⟨.inl hans, fun _ => hans⟩

/-- A request for "/static/../b" on the route of the directory "/srv". -/
theorem dot_dot_not_found :
    let file : FsNode := .file { size := 1, time := 0, data := bytes "x", readable := true }
    let a : EntryName := ⟨bytes "a", by decide, by decide, by decide, by decide⟩
    let srv := ServerImpl.booted
      [.addDirectoryRoute (bytes "/static") (bytes "/srv") (some (.directory [(a, file)]))]
    let env : RouteEnv Int :=
      { engine := { getState := .ok {}, call := fun h _ _ => ⟨h, .returned []⟩ }
        getFile := srv.fileCache.fileMap }
    let inc : Incoming := .http
      { method := bytes "GET", path := bytes "/static/../b", headers := [], body := []
        remoteAddr := [], remoteIsV4 := true }
    ∃ s, srv.serve env 0 inc = .returned () s ∧ s.handling.req.AnsweredBy 404 [] := by
  intro file a srv env inc
  have habs : AbsoluteDir (bytes "/srv") := by
    refine ⟨[bytes "srv"], by decide, ?_⟩
    intro seg hseg
    rw [List.mem_singleton.mp hseg]
    exact ⟨by decide, by decide, by decide, by decide⟩
  have hboot : CleanBoot ServerImpl.new
      [.addDirectoryRoute (bytes "/static") (bytes "/srv") (some (.directory [(a, file)]))] :=
    ⟨⟨by decide, by decide, habs⟩, trivial⟩
  have hget : GetFileAnswers [()] srv.fileCache env.getFile :=
    fun n f hf => ⟨_, .init, .inl hf⟩
  have hroute : srv.routeOf inc = some (.directory (bytes "/static/") (bytes "/srv/") 4 5 6) := by
    decide
  obtain ⟨rel, hrel, s, hs, -, hbad⟩ := directory_route_confined hboot env hget inc hroute 0
  refine ⟨s, hs, hbad ⟨bytes "..", ?_, fun h => h.notDotDot rfl⟩⟩
  have : bytes "/static/" ++ bytes "../b" = bytes "/static/" ++ rel := hrel
  rw [← List.append_cancel_left this]
  decide

end Routes

end Petrel
