/-
  Petrel.Core.FrontEnds — the two front ends look up the same route.

  The HTTP/1 session looks up the whole request target, the HTTP/2 handler
  only the raw path, which is the target up to its first question mark.  A
  route is found by its longest registered prefix, and a registered path
  without a question mark is no longer than the raw path.

  Main results:
    * `findRoute_query` — a query does not change the route.
    * `front_ends_route_alike` — both front ends dispatch to the same route.
-/

import Petrel.Core.ServerImpl

namespace Petrel

open Framework

/-! ## §1. Routes and queries. -/

/-- The raw path and the raw query of a target: nghttp2 splits it at the first
question mark. -/
def splitTarget (target : Bytes) : Bytes × Bytes :=
  (target.takeWhile (· ≠ byte '?'), (target.dropWhile (· ≠ byte '?')).drop 1)

/-- No letter `?` leads to a terminal node. -/
def NoQueryRoutes {Func : Type} (r : Router Func) : Prop :=
  ∀ path ∈ defined (entries r.set.root), byte '?' ∉ path

/-- The paths registered in the bootstrap have no question mark. -/
def BootEvent.NoQuery : BootEvent → Prop
  | .addRoute path _ => byte '?' ∉ path
  | .addDirectoryRoute path _ _ => byte '?' ∉ path
  | .refresh _ => True

/-- A word without a letter is a prefix up to the letter. -/
theorem prefix_append_cons_iff {α : Type} {c : α} {q : List α} (hq : c ∉ q) (p s : List α) :
    q <+: p ++ c :: s ↔ q <+: p := by
  constructor
  · intro h
    rcases List.prefix_or_prefix_of_prefix h (List.prefix_append p (c :: s)) with hshort | ⟨t, ht⟩
    · exact hshort
    · -- a longer word would have the letter
      rw [← ht, List.prefix_append_right_inj] at h
      cases t with
      | nil => rw [← ht, List.append_nil]
      | cons d t =>
          obtain ⟨hd, -⟩ := List.cons_prefix_cons.mp h
          rw [← ht, hd] at hq
          exact absurd (List.mem_append_right _ (List.mem_cons_self ..)) hq
  · intro h
    exact h.trans (List.prefix_append ..)

/-- **A query does not change the route.** -/
theorem findRoute_query {Func : Type} {r : Router Func} (hr : NoQueryRoutes r) (p q : Bytes) :
    r.findRoute (p ++ byte '?' :: q) = r.findRoute p := by
  -- no route has a question mark, so none is longer than the path
  have hlong : longest (entries r.set.root) (p ++ byte '?' :: q) = longest (entries r.set.root) p :=
    longest_congr (fun t ht => prefix_append_cons_iff (hr t ht) p q)
  unfold Router.findRoute
  rw [find_eq_longest, find_eq_longest, hlong]

/-- The route of a target is that of its raw path. -/
theorem findRoute_target {Func : Type} {r : Router Func} (hr : NoQueryRoutes r) (target : Bytes) :
    r.findRoute target = r.findRoute (splitTarget target).1 := by
  have hsplit := List.takeWhile_append_dropWhile (p := (· ≠ byte '?')) (l := target)
  unfold splitTarget
  cases hrest : target.dropWhile (· ≠ byte '?') with
  | nil =>
      rw [hrest, List.append_nil] at hsplit
      rw [hsplit]
  | cons c query =>
      -- the rest begins at the first question mark
      have hc : c = byte '?' := by
        have hhead := List.head?_dropWhile_not (fun c => decide (c ≠ byte '?')) target
        rw [hrest] at hhead
        by_contra hne
        exact absurd (decide_eq_true hne) (by rw [hhead]; decide)
      rw [hrest, hc] at hsplit
      conv_lhs => rw [← hsplit]
      exact findRoute_query hr _ query

/-! ## §2. Both front ends. -/

theorem noQueryRoutes_addRoutes {Func : Type} [Inhabited Func] (dflt : Func) {calls : List (Bytes × Func)}
    (hcalls : ∀ call ∈ calls, byte '?' ∉ call.1) : NoQueryRoutes ((Router.new dflt).addRoutes calls) := by
  intro path hpath
  rw [defined_entries_addRoutes] at hpath
  obtain ⟨call, hcall, rfl⟩ := List.mem_map.mp hpath.2
  exact hcalls call hcall

theorem noQuery_withSlash {path : Bytes} (h : byte '?' ∉ path) : byte '?' ∉ withSlash path := by
  unfold withSlash
  split
  · exact h
  · intro hmem
    rcases List.mem_append.mp hmem with hmem | hmem
    · exact h hmem
    · exact absurd (List.mem_singleton.mp hmem) (by decide)

theorem noQueryRoutes_booted {events : List BootEvent} (hevents : ∀ event ∈ events, event.NoQuery) :
    NoQueryRoutes (ServerImpl.booted events).router := by
  -- what the bootstrap puts into the router is under such paths
  have hok : (ServerImpl.booted events).Ok (fun path _ => byte '?' ∉ path) := by
    refine ok_booted events ?_
    intro event hevent
    have hquery := hevents event hevent
    cases event with
    | addRoute path func => exact fun _ _ _ => hquery
    | addDirectoryRoute path dir node => exact fun _ _ _ => noQuery_withSlash hquery
    | refresh u => exact trivial
  intro path hpath
  obtain ⟨func, hfunc⟩ := Option.ne_none_iff_exists'.mp hpath
  exact hok.entry path func hfunc

/-- **BOTH FRONT ENDS ROUTE ALIKE.**  Among routes whose paths have no
question mark, a path and the same path with a query select the same function,
and a GET or POST of a target goes to the same route of the server on either
front end. -/
theorem front_ends_route_alike {Func : Type} [Inhabited Func] (dflt : Func) (calls : List (Bytes × Func))
    (hcalls : ∀ call ∈ calls, byte '?' ∉ call.1) (events : List BootEvent)
    (hevents : ∀ event ∈ events, event.NoQuery) :
    (∀ p q, byte '?' ∉ p →
      ((Router.new dflt).addRoutes calls).findRoute p =
        ((Router.new dflt).addRoutes calls).findRoute (p ++ byte '?' :: q)) ∧
    (∀ (r : HttpRequest) (r' : Http2Stream), r'.method = r.method →
      r.method = bytes "GET" ∨ r.method = bytes "POST" →
      (r'.rawPath, r'.rawQuery) = splitTarget r.path →
      (ServerImpl.booted events).routeOf (.http2 r') = (ServerImpl.booted events).routeOf (.http r)) := by
  constructor
  · intro p q _
    exact (findRoute_query (noQueryRoutes_addRoutes dflt hcalls) p q).symm
  · intro r r' hsame hmethod htarget
    have hpath : r'.rawPath = (splitTarget r.path).1 := congrArg Prod.fst htarget
    unfold ServerImpl.routeOf
    dsimp only
    rw [hsame, if_pos hmethod, hpath, findRoute_target (noQueryRoutes_booted hevents) r.path]

/-- One Lua route, and a target with a query. -/
theorem front_ends_route_alike_query :
    ((Router.new 0).addRoutes [(bytes "/a", 1)]).findRoute (bytes "/ab") =
        ((Router.new 0).addRoutes [(bytes "/a", 1)]).findRoute (bytes "/ab" ++ byte '?' :: bytes "/a") ∧
      ∀ r r', r'.method = r.method → r.method = bytes "GET" ∨ r.method = bytes "POST" →
        (r'.rawPath, r'.rawQuery) = splitTarget r.path →
        (ServerImpl.booted [.addRoute (bytes "/a") (bytes "f")]).routeOf (.http2 r') =
          (ServerImpl.booted [.addRoute (bytes "/a") (bytes "f")]).routeOf (.http r) := by
  have h := front_ends_route_alike 0 [(bytes "/a", 1)] (by decide +kernel)
    [.addRoute (bytes "/a") (bytes "f")] (by
      intro event hevent
      obtain rfl := List.mem_singleton.mp hevent
      show byte '?' ∉ bytes "/a"
      decide +kernel)
  exact ⟨h.1 _ _ (by decide +kernel), h.2⟩

end Petrel
