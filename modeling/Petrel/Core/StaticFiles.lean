/-
  Petrel.Core.StaticFiles — the file of a request, and its query.

  The key of a static file is the directory of the route and what the path of
  the request has behind the path of the route.  With HTTP/1 that path is the
  whole target; with HTTP/2 it is the raw path and, if there is one, the raw
  query behind a question mark.  Nothing takes the query off again, so it
  becomes a part of the key.  Only an empty query of an HTTP/2 request is lost.

  Main results:
    * `request_path` — what either front end leaves behind the route's path.
    * `static_exact_iff` — which requests get the file that their target names.
-/

import Petrel.Core.DirectoryRoutes
import Petrel.Core.FileLoad
import Petrel.Core.FrontEnds

namespace Petrel

open Framework

/-! ## §1. The target and the path of a request. -/

/-- The end of a target: nothing, or a question mark and a query string. -/
def queryText : Option Bytes → Bytes
  | none => []
  | some q => byte '?' :: q

/-- The target that a request was made for; nghttp2 has split it. -/
def Incoming.HasTarget (target : Bytes) : Incoming → Prop
  | .http r => r.path = target
  | .http2 r => (r.rawPath, r.rawQuery) = splitTarget target

/-- What is left of the query in the path of the request: the HTTP2 ctor
drops the question mark of an empty one. -/
def Incoming.keptQuery (query : Option Bytes) : Incoming → Bytes
  | .http _ => queryText query
  | .http2 _ => if query = some [] then [] else queryText query

/-- A target is split behind the path it was made of. -/
theorem splitTarget_append {p : Bytes} (hp : byte '?' ∉ p) (query : Option Bytes) :
    splitTarget (p ++ queryText query) = (p, query.getD []) := by
  have hletters : ∀ c ∈ p, decide (c ≠ byte '?') = true := by
    intro c hc
    exact decide_eq_true (fun heq => hp (heq ▸ hc))
  unfold splitTarget
  rw [List.takeWhile_append_of_pos hletters, List.dropWhile_append_of_pos hletters]
  cases query with
  | none => simp [queryText]
  | some q => simp [queryText]

theorem not_mem_splitTarget (target : Bytes) : byte '?' ∉ (splitTarget target).1 := by
  intro hmem
  have h := List.mem_takeWhile_imp hmem
  simp at h

/-- **Either front end puts the rest of the target behind the path of the
route**, up to an empty query. -/
theorem request_path {events : List BootEvent} {inc : Incoming} {path dir rel : Bytes}
    {a b c : MetricId} {query : Option Bytes}
    (htarget : inc.HasTarget (path ++ rel ++ queryText query)) (hrel : byte '?' ∉ rel)
    (hroute : (ServerImpl.booted events).routeOf inc = some (.directory path dir a b c)) :
    inc.request.path = path ++ (rel ++ inc.keptQuery query) := by
  cases inc with
  | http r =>
      show r.path = path ++ (rel ++ queryText query)
      rw [← List.append_assoc]
      exact htarget
  | http2 r =>
      have hsplit : (r.rawPath, r.rawQuery) = splitTarget (path ++ rel ++ queryText query) := htarget
      -- the route was found by the raw path, so its path has no question mark
      have hprefix : path <+: r.rawPath := by
        unfold ServerImpl.routeOf at hroute
        simp only at hroute
        split at hroute
        · exact (findRoute_directory (Option.some.inj hroute)).1
        · cases hroute
      have hpath : byte '?' ∉ path := by
        intro hmem
        have hraw := hprefix.subset hmem
        rw [show r.rawPath = _ from congrArg Prod.fst hsplit] at hraw
        exact not_mem_splitTarget _ hraw
      have hwhole : byte '?' ∉ path ++ rel := by
        rw [List.mem_append, not_or]
        exact ⟨hpath, hrel⟩
      rw [splitTarget_append hwhole] at hsplit
      have hraw : r.rawPath = path ++ rel := congrArg Prod.fst hsplit
      have hquery : r.rawQuery = query.getD [] := congrArg Prod.snd hsplit
      show r.path = path ++ (rel ++ if query = some [] then [] else queryText query)
      unfold Http2Stream.path
      rw [hraw, hquery]
      cases query with
      | none => simp [queryText]
      | some q =>
          by_cases hq : q = []
          · simp [hq]
          · have hmark : bytes "?" = [byte '?'] := by decide
            simp [hq, queryText, hmark]

/-! ## §2. The file that a request is owed. -/

section Served

variable {Num : Type} [DecidableEq Num] [LuaNumber Num]

/-- The answer that a GET of a static file is owed: the bytes of the cached
file under its key, or 404. -/
def ServedFile (env : RouteEnv Num) (key : Bytes) (o : Outcome Bytes Fault (Serving Num) Unit) : Prop :=
  match env.getFile key with
  | some f => Answered (200, f.data) o
  | none => ∃ body, Answered (404, body) o

/-- When the text that is left of the query does no harm.  Without a text the
file has to have the size it promises.  With one, the file under the longer
name has to be there if and only if the one that is asked for is, and with the
same bytes. -/
def QueryHarmless (env : RouteEnv Num) (path dir rel text : Bytes) : Prop :=
  if text = [] then
    ∀ f, env.getFile (dir ++ rel) = some f →
      (path ++ rel).getLast? ≠ some (byte '/') ∧ f.size = f.data.length
  else
    match env.getFile (dir ++ rel) with
    | some f =>
        text.getLast? ≠ some (byte '/') ∧
          ∃ g, env.getFile (dir ++ (rel ++ text)) = some g ∧ g.body env.engine.behind = f.data
    | none => text.getLast? = some (byte '/') ∨ env.getFile (dir ++ (rel ++ text)) = none

omit [DecidableEq Num] [LuaNumber Num] in
/-- A request has one answer. -/
theorem Answered.unique {r r' : Int × Bytes} {o : Outcome Bytes Fault (Serving Num) Unit}
    (h : Answered r o) (h' : Answered r' o) : r = r' := by
  obtain ⟨s, hs, headers, hsent⟩ := h
  obtain ⟨s', hs', headers', hsent'⟩ := h'
  obtain ⟨-, rfl⟩ := Outcome.returned.inj (hs.symm.trans hs')
  have hresp := (List.cons.inj (hsent.symm.trans hsent')).1
  exact Prod.ext (congrArg SentResponse.status hresp) (congrArg SentResponse.body hresp)

/-- The response to a file has its bytes if and only if the size is theirs. -/
theorem body_eq_data_iff (f : CachedFile) (behind : Nat → UInt8) :
    f.body behind = f.data ↔ f.size = f.data.length := by
  constructor
  · intro h
    have hlen := congrArg List.length h
    simpa only [CachedFile.body, List.length_map, List.length_range] using hlen
  · intro h
    rw [(body_eq_take_iff f).mpr (Nat.le_of_eq h) behind, h, List.take_length]

omit [DecidableEq Num] [LuaNumber Num] in
/-- A request is served if and only if the reply of the route is the one that
is owed. -/
theorem servedFile_iff_reply (env : RouteEnv Num) (path dir rel text : Bytes)
    {o : Outcome Bytes Fault (Serving Num) Unit}
    (h : Answered (directoryReply env .get path dir (rel ++ text)) o) :
    ServedFile env (dir ++ rel) o ↔
      match env.getFile (dir ++ rel) with
      | some f => directoryReply env .get path dir (rel ++ text) = (200, f.data)
      | none => (directoryReply env .get path dir (rel ++ text)).1 = 404 := by
  unfold ServedFile
  cases env.getFile (dir ++ rel) with
  | some f =>
      constructor
      · exact h.unique
      · intro heq
        show Answered (200, f.data) o
        rw [← heq]
        exact h
  | none =>
      constructor
      · intro hans
        obtain ⟨body, hbody⟩ := hans
        rw [h.unique hbody]
      · intro heq
        exact ⟨(directoryReply env .get path dir (rel ++ text)).2, heq ▸ h⟩

omit [DecidableEq Num] [LuaNumber Num] in
/-- The reply is the one that is owed if and only if the query does no harm. -/
theorem reply_owed_iff (env : RouteEnv Num) (path dir rel text : Bytes) :
    (match env.getFile (dir ++ rel) with
      | some f => directoryReply env .get path dir (rel ++ text) = (200, f.data)
      | none => (directoryReply env .get path dir (rel ++ text)).1 = 404) ↔
      QueryHarmless env path dir rel text := by
  unfold QueryHarmless directoryReply
  by_cases htext : text = []
  · subst htext
    rw [if_pos rfl, List.append_nil]
    generalize (path ++ rel).getLast? = last
    by_cases hslash : last = some (byte '/')
    · cases env.getFile (dir ++ rel) with
      | none => simp [hslash]
      | some f => simp [hslash]
    · cases env.getFile (dir ++ rel) with
      | none => simp [hslash]
      | some f => simp [hslash, body_eq_data_iff]
  · rw [if_neg htext]
    have hlast : (path ++ (rel ++ text)).getLast? = text.getLast? := by
      rw [← List.append_assoc, List.getLast?_append_of_ne_nil _ htext]
    rw [hlast]
    by_cases hslash : text.getLast? = some (byte '/')
    · cases env.getFile (dir ++ rel) with
      | none => simp [hslash]
      | some f => simp [hslash]
    · cases env.getFile (dir ++ rel) with
      | none => cases env.getFile (dir ++ (rel ++ text)) <;> simp [hslash]
      | some f => cases env.getFile (dir ++ (rel ++ text)) <;> simp [hslash]

/-- **A STATIC FILE AND A QUERY.**  On either front end a GET request for a
file of a directory route is answered with the cached file its target names,
or with 404 if there is none, exactly when the query does no harm. -/
theorem static_exact_iff {events : List BootEvent} (env : RouteEnv Num) {inc : Incoming}
    {path dir rel : Bytes} {query : Option Bytes} {a b c : MetricId}
    (hmethod : inc.request.method = .get)
    (htarget : inc.HasTarget (path ++ rel ++ queryText query)) (hrel : byte '?' ∉ rel)
    (hroute : (ServerImpl.booted events).routeOf inc = some (.directory path dir a b c)) (fuel : Nat) :
    ServedFile env (dir ++ rel) ((ServerImpl.booted events).serve env fuel inc) ↔
      QueryHarmless env path dir rel (inc.keptQuery query) := by
  obtain ⟨-, -, p, d, node, -, hp, -⟩ := routeOf_prefix hroute
  have hpath : path ≠ [] := hp ▸ withSlash_ne_nil p
  have hreplied := directoryRoute_replied (registered_booted events) env hpath dir
    (rel ++ inc.keptQuery query) a b c (s := .start inc.request) (fresh_request inc)
    (request_path htarget hrel hroute)
  have hans : Answered (directoryReply env .get path dir (rel ++ inc.keptQuery query))
      ((ServerImpl.booted events).serve env fuel inc) := by
    rw [serve_eq, hroute, ← hmethod]
    exact hreplied.answered
  exact (servedFile_iff_reply env path dir rel _ hans).trans (reply_owed_iff env path dir rel _)

end Served

/-- The server with the file "/srv/a" behind the route "/static". -/
def staticServer : ServerImpl :=
  ServerImpl.booted [.addDirectoryRoute (bytes "/static") (bytes "/srv")
    (some (.directory [(⟨bytes "a", by decide, by decide, by decide, by decide⟩,
      .file { size := 1, time := 0, data := bytes "x", readable := true })]))]

/-- Its cache answers `get_file`. -/
def staticEnv : RouteEnv Int :=
  { engine := { getState := .ok {}, call := fun h _ _ => ⟨h, .returned []⟩ }
    getFile := staticServer.fileCache.fileMap }

/-- A GET of the target "/static/a?" that comes in by HTTP/2. -/
theorem static_exact_iff_empty_query :
    let inc : Incoming := .http2
      { method := bytes "GET", scheme := bytes "http", host := [], rawPath := bytes "/static/a"
        rawQuery := [], headers := [], chunks := [], remoteAddr := [], remoteIsV4 := true }
    ServedFile staticEnv (bytes "/srv/" ++ bytes "a") (staticServer.serve staticEnv 0 inc) := by
  intro inc
  have hroute : staticServer.routeOf inc =
      some (.directory (bytes "/static/") (bytes "/srv/") 4 5 6) := by decide
  have htarget : inc.HasTarget (bytes "/static/" ++ bytes "a" ++ queryText (some [])) := by
    show (bytes "/static/a", []) = splitTarget _
    decide
  refine (static_exact_iff staticEnv (by decide) htarget (by decide) hroute 0).mpr ?_
  show QueryHarmless staticEnv (bytes "/static/") (bytes "/srv/") (bytes "a") []
  intro f hf
  have hfile : staticEnv.getFile (bytes "/srv/" ++ bytes "a") = some ⟨1, 0, bytes "x"⟩ := by decide
  obtain rfl := Option.some.inj (hf.symm.trans hfile)
  exact ⟨by decide, by decide⟩

/-- **The query hides the file**: on either front end a GET of "/static/a?x" is
answered with 404. -/
theorem query_hides_file :
    let inc : Incoming := .http
      { method := bytes "GET", path := bytes "/static/a?x", headers := [], body := []
        remoteAddr := [], remoteIsV4 := true }
    let inc' : Incoming := .http2
      { method := bytes "GET", scheme := bytes "http", host := [], rawPath := bytes "/static/a"
        rawQuery := bytes "x", headers := [], chunks := [], remoteAddr := [], remoteIsV4 := true }
    let target := bytes "/static/" ++ bytes "a" ++ queryText (some (bytes "x"))
    let route := RouteFunc.directory (bytes "/static/") (bytes "/srv/") 4 5 6
    (inc.HasTarget target ∧ staticServer.routeOf inc = some route ∧
      inc'.HasTarget target ∧ staticServer.routeOf inc' = some route) ∧
    staticEnv.getFile (bytes "/srv/" ++ bytes "a") = some ⟨1, 0, bytes "x"⟩ ∧
    ¬ ServedFile staticEnv (bytes "/srv/" ++ bytes "a") (staticServer.serve staticEnv 0 inc) ∧
    ¬ ServedFile staticEnv (bytes "/srv/" ++ bytes "a") (staticServer.serve staticEnv 0 inc') := by
  intro inc inc' target route
  have hfile : staticEnv.getFile (bytes "/srv/" ++ bytes "a") = some ⟨1, 0, bytes "x"⟩ := by decide
  -- what is answered with 404 is not answered with 200
  have hnot : ∀ {o : Outcome Bytes Fault (Serving Int) Unit}, Answered (404, []) o →
      ¬ ServedFile staticEnv (bytes "/srv/" ++ bytes "a") o := by
    intro o h404 hserved
    unfold ServedFile at hserved
    rw [hfile] at hserved
    exact absurd (congrArg Prod.fst (h404.unique hserved)) (by decide)
  refine ⟨⟨rfl, by decide, ?_, by decide⟩, hfile, hnot ?_, hnot ?_⟩
  · show (bytes "/static/a", bytes "x") = splitTarget target
    decide
  · exact ⟨_, rfl, _, rfl⟩
  · exact ⟨_, rfl, _, rfl⟩

end Petrel
