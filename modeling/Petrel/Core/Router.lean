/-
  Petrel.Core.Router — the router and its 256-way search set.

  `path_set` is a trie whose levels are arrays of 256 nodes, grown lazily:
  `insert` allocates a level where a path needs it and marks the last node
  terminal, `find` walks the request path and remembers the last terminal
  node it saw.  The function type is a parameter, as in the source.

  The meaning of a trie is the partial map `entries` from paths to the
  functions of its terminal nodes.  `insert` is a point update of that map
  and `find` is its longest-prefix lookup, so the router of any sequence of
  registrations is the abstract `latest` map under `longest`.

  Main results:
    * `entries_insertAt` — insertion updates exactly one entry.
    * `findAt_eq_longest` — the walk is the longest-prefix lookup.
    * `find_route_longest_prefix` — routing is longest-prefix match.
-/

import Petrel.Core.Bytes
import Petrel.Framework.LongestPrefix

namespace Petrel

open Framework

/-! ## §1. The search set. -/

/-- `path_node`: a node in the search set.  `next` is the pointer to the
array of 256 nodes below it, null until a longer path needs it. -/
structure PathNode (Func : Type) where
  term : Bool := false
  func : Func
  next : Option (UInt8 → PathNode Func) := none

/-- An array of 256 nodes. -/
abbrev NodeTable (Func : Type) := UInt8 → PathNode Func

section Set

variable {Func : Type}

/-- `new node_type[256]`: no node is terminal, no level is below. -/
def NodeTable.fresh [Inhabited Func] : NodeTable Func := fun _ => { func := default }

/-- The loop of `path_set::insert` from the level `next` on.  Only the empty
path leaves the loop without returning a node. -/
def insertAt [Inhabited Func] (next : NodeTable Func) : Bytes → Func → Except String (NodeTable Func)
  | [], _ => .error "insert failed"
  | [c], func => .ok (Function.update next c { next c with term := true, func := func })
  | c :: c' :: path, func => do
      let node := next c
      let below ← insertAt (node.next.getD NodeTable.fresh) (c' :: path) func
      .ok (Function.update next c { node with next := some below })

/-- The loop of `path_set::find` from the level `next` on, `found` being the
last terminal node seen. -/
def findAt (next : NodeTable Func) (found : Option (PathNode Func)) :
    Bytes → Option (PathNode Func)
  | [] => found
  | c :: path =>
      let node := next c
      -- the deepest terminal node so far
      let found := if node.term then some node else found
      match node.next with
      | none => found
      | some next => findAt next found path

/-- `path_set`. -/
structure PathSet (Func : Type) where
  root : NodeTable Func

/-- `path_set::insert`.  A throw leaves the set as it was. -/
def PathSet.insert [Inhabited Func] (s : PathSet Func) (path : Bytes) (func : Func) :
    Except String Unit × PathSet Func :=
  match insertAt s.root path func with
  | .ok root => (.ok (), { s with root := root })
  | .error e => (.error e, s)

/-- `path_set::find`. -/
def PathSet.find (s : PathSet Func) (path : Bytes) : Except String Func :=
  match findAt s.root none path with
  | some found => .ok found.func
  | none => .error "find failed"

/-! ## §2. The router. -/

/-- `router`. -/
structure Router (Func : Type) where
  set : PathSet Func
  defaultFunc : Func

/-- A router without routes. -/
def Router.new [Inhabited Func] (defaultFunc : Func) : Router Func :=
  { set := { root := NodeTable.fresh }, defaultFunc := defaultFunc }

/-- `router::add_route`. -/
def Router.addRoute [Inhabited Func] (r : Router Func) (path : Bytes) (func : Func) :
    Except String Unit × Router Func :=
  let (res, set) := r.set.insert path func
  (res, { r with set := set })

/-- `router::find_route`. -/
def Router.findRoute (r : Router Func) (path : Bytes) : Func :=
  match r.set.find path with
  | .ok func => func
  | .error _ => r.defaultFunc

/-- A sequence of `add_route` calls, thrown exceptions caught in between. -/
def Router.addRoutes [Inhabited Func] (r : Router Func) (calls : List (Bytes × Func)) : Router Func :=
  calls.foldl (fun r call => (r.addRoute call.1 call.2).2) r

/-! ## §3. The meaning of a trie. -/

/-- The function of the terminal node at the end of a path, if there is one. -/
def entries (next : NodeTable Func) : Bytes → Option Func
  | [] => none
  | [c] => if (next c).term then some (next c).func else none
  | c :: c' :: path =>
      match (next c).next with
      | none => none
      | some below => entries below (c' :: path)

@[simp] theorem entries_nil (next : NodeTable Func) : entries next [] = none := rfl

theorem entries_singleton (next : NodeTable Func) (c : UInt8) :
    entries next [c] = if (next c).term then some (next c).func else none := rfl

theorem entries_cons_cons (next : NodeTable Func) (c c' : UInt8) (path : Bytes) :
    entries next (c :: c' :: path) =
      ((next c).next).bind (fun below => entries below (c' :: path)) := by
  rw [entries]
  cases (next c).next <;> rfl

@[simp] theorem entries_fresh [Inhabited Func] (path : Bytes) :
    entries (NodeTable.fresh : NodeTable Func) path = none := by
  match path with
  | [] => rfl
  | [c] => rfl
  | c :: c' :: path => rfl

/-- Entries below another first letter do not depend on the node of `c`. -/
theorem entries_update_ne (next : NodeTable Func) (c d : UInt8) (node : PathNode Func)
    (path : Bytes) (h : d ≠ c) :
    entries (Function.update next c node) (d :: path) = entries next (d :: path) := by
  cases path with
  | nil => simp only [entries_singleton, Function.update_of_ne h]
  | cons d' path => simp only [entries_cons_cons, Function.update_of_ne h]

/-! ## §4. Insertion is a point update. -/

theorem entries_insertAt [Inhabited Func] (path : Bytes) :
    ∀ (next : NodeTable Func) (func : Func), path ≠ [] →
      ∃ next', insertAt next path func = .ok next' ∧
        entries next' = Function.update (entries next) path (some func) := by
  induction path with
  | nil => intro next func h; exact absurd rfl h
  | cons c path ih =>
      intro next func _
      cases path with
      | nil =>
          refine ⟨_, rfl, ?_⟩
          funext q
          match q with
          | [] => simp [Function.update]
          | [d] =>
              by_cases hd : d = c
              · subst hd
                simp [entries_singleton]
              · rw [entries_update_ne _ _ _ _ _ hd]
                simp [Function.update, hd]
          | d :: d' :: q =>
              by_cases hd : d = c
              · subst hd
                simp [entries_cons_cons, Function.update]
              · rw [entries_update_ne _ _ _ _ _ hd]
                simp [Function.update]
      | cons c' path =>
          obtain ⟨below, hbelow, hentries⟩ :=
            ih ((next c).next.getD NodeTable.fresh) func (by simp)
          -- a level that was not there yet has no entries
          have hold : ∀ q, entries ((next c).next.getD NodeTable.fresh) q
              = (next c).next.bind (fun t => entries t q) := by
            intro q
            cases (next c).next <;> simp
          -- the level below is replaced by the one with the entry
          refine ⟨Function.update next c { next c with next := some below }, ?_, ?_⟩
          · simp [insertAt, hbelow, bind, Except.bind]
          · funext q
            match q with
            | [] => simp [Function.update]
            | [d] =>
                by_cases hd : d = c
                · subst hd
                  simp [entries_singleton, Function.update]
                · rw [entries_update_ne _ _ _ _ _ hd]
                  simp [Function.update]
            | d :: d' :: q =>
                by_cases hd : d = c
                · subst hd
                  simp only [entries_cons_cons, Function.update_self, Option.bind_some, hentries]
                  by_cases hq : d' :: q = c' :: path
                  · rw [hq, Function.update_self, Function.update_self]
                  · rw [Function.update_of_ne hq,
                        Function.update_of_ne (fun h => hq (List.cons.inj h).2),
                        hold, entries_cons_cons]
                · rw [entries_update_ne _ _ _ _ _ hd,
                      Function.update_of_ne (fun h => hd (List.cons.inj h).1)]

/-! ## §5. The walk is the longest-prefix lookup. -/

/-- Below a letter, the entries of a table are those of the level below and
the node itself. -/
theorem deriv_entries (next : NodeTable Func) (c : UInt8) (path : Bytes) :
    longest (deriv (entries next) c) path =
      (((next c).next).bind (fun below => longest (entries below) path)).or
        (if (next c).term then some (next c).func else none) := by
  have hnil : deriv (entries next) c [] = if (next c).term then some (next c).func else none := rfl
  cases path with
  | nil =>
      rw [longest, hnil]
      cases (next c).next <;> simp [longest]
  | cons c' path =>
      rw [longest, hnil]
      -- two letters further the entries are those below the first
      have hderiv : deriv (deriv (entries next) c) c'
          = fun q => ((next c).next).bind (fun below => deriv (entries below) c' q) := by
        funext q
        exact entries_cons_cons next c c' q
      cases hn : (next c).next with
      | none =>
          have : longest (deriv (deriv (entries next) c) c') path = none := by
            rw [longest_eq_none_iff, hderiv, hn]
            simp
          rw [this]
          simp
      | some below =>
          rw [hderiv, hn]
          simp [longest]

/-- **The walk of `find` returns the value of the longest prefix, and the
node it started from where no prefix is terminal.** -/
theorem findAt_eq_longest (path : Bytes) :
    ∀ (next : NodeTable Func) (found : Option (PathNode Func)),
      (findAt next found path).map PathNode.func =
        (longest (entries next) path).or (found.map PathNode.func) := by
  induction path with
  | nil => intro next found; simp [findAt, longest]
  | cons c path ih =>
      intro next found
      rw [findAt, longest, entries_nil, Option.or_none, deriv_entries]
      cases hn : (next c).next with
      | none => cases ht : (next c).term <;> simp
      | some below =>
          -- a longer prefix below comes before the node, and the node before `found`
          simp only [ih below, Option.bind_some, Option.or_assoc]
          cases ht : (next c).term <;> simp

/-! ## §6. The router of a sequence of registrations. -/

/-- The function most recently registered under a path. -/
def latest (calls : List (Bytes × Func)) (path : Bytes) : Option Func :=
  ((calls.filter (fun call => call.1 = path)).getLast?).map Prod.snd

/-- The non-empty registered paths. -/
def registered (calls : List (Bytes × Func)) : Set Bytes :=
  {path | path ≠ [] ∧ path ∈ calls.map Prod.fst}

theorem latest_concat (calls : List (Bytes × Func)) (call : Bytes × Func) :
    latest (calls ++ [call]) = Function.update (latest calls) call.1 (some call.2) := by
  funext path
  by_cases h : call.1 = path
  · subst h
    simp [latest, List.filter_append]
  · rw [Function.update_of_ne (Ne.symm h)]
    simp [latest, List.filter_append, h]

theorem latest_ne_none_iff (calls : List (Bytes × Func)) (path : Bytes) :
    latest calls path ≠ none ↔ path ∈ calls.map Prod.fst := by
  simp [latest]

theorem addRoutes_concat [Inhabited Func] (r : Router Func) (calls : List (Bytes × Func))
    (call : Bytes × Func) :
    r.addRoutes (calls ++ [call]) = ((r.addRoutes calls).addRoute call.1 call.2).2 := by
  simp [Router.addRoutes]

theorem addRoute_nil [Inhabited Func] (r : Router Func) (func : Func) :
    r.addRoute [] func = (.error "insert failed", r) := rfl

/-- One `add_route` call with a non-empty path updates one entry. -/
theorem addRoute_entries [Inhabited Func] (r : Router Func) (path : Bytes) (func : Func)
    (h : path ≠ []) :
    entries (r.addRoute path func).2.set.root
      = Function.update (entries r.set.root) path (some func) := by
  obtain ⟨next', hok, hentries⟩ := entries_insertAt path r.set.root func h
  simp only [Router.addRoute, PathSet.insert, hok]
  exact hentries

/-- **The representation invariant**: after any registrations the trie's
entries are the latest functions of the non-empty registered paths. -/
theorem entries_addRoutes [Inhabited Func] (dflt : Func) (calls : List (Bytes × Func)) :
    ∀ path, entries ((Router.new dflt).addRoutes calls).set.root path
      = if path = [] then none else latest calls path := by
  induction calls using List.reverseRecOn with
  | nil =>
      intro path
      have hfresh : entries ((Router.new dflt).addRoutes []).set.root path = none :=
        entries_fresh path
      simp [hfresh, latest]
  | append_singleton calls call ih =>
      intro path
      obtain ⟨p, func⟩ := call
      rw [addRoutes_concat, latest_concat]
      by_cases hp : p = []
      · -- the throwing call leaves the set, and the empty path has no entry
        subst hp
        rw [addRoute_nil, ih]
        by_cases hpath : path = []
        · simp [hpath]
        · simp [hpath]
      · rw [addRoute_entries _ _ _ hp]
        by_cases hpath : path = p
        · subst hpath
          simp [hp]
        · rw [Function.update_of_ne hpath, Function.update_of_ne hpath]
          exact ih path

theorem defined_entries_addRoutes [Inhabited Func] (dflt : Func)
    (calls : List (Bytes × Func)) :
    defined (entries ((Router.new dflt).addRoutes calls).set.root) = registered calls := by
  ext path
  simp only [defined, registered, Set.mem_ofPred_eq, entries_addRoutes]
  by_cases h : path = []
  · simp [h]
  · rw [if_neg h, latest_ne_none_iff]
    simp [h]

@[simp] theorem addRoutes_defaultFunc [Inhabited Func] (r : Router Func)
    (calls : List (Bytes × Func)) : (r.addRoutes calls).defaultFunc = r.defaultFunc := by
  induction calls generalizing r with
  | nil => rfl
  | cons call calls ih => exact ih _

/-- `find` throws exactly if the longest-prefix lookup has no value. -/
theorem find_eq_longest (s : PathSet Func) (path : Bytes) :
    s.find path = match longest (entries s.root) path with
      | some func => .ok func
      | none => .error "find failed" := by
  have hwalk := findAt_eq_longest path s.root none
  rw [Option.map_none, Option.or_none] at hwalk
  rw [PathSet.find, ← hwalk]
  cases findAt s.root none path <;> rfl

theorem find_error_iff (s : PathSet Func) (path : Bytes) :
    s.find path = .error "find failed" ↔ ∀ q ∈ defined (entries s.root), ¬ q <+: path := by
  have hnone : longest (entries s.root) path = none
      ↔ ∀ q ∈ defined (entries s.root), ¬ q <+: path := by
    rw [longest_eq_none_iff]
    exact ⟨fun h q hq hp => hq (h q hp), fun h q hp => by_contra (fun hq => h q hq hp)⟩
  rw [find_eq_longest, ← hnone]
  cases longest (entries s.root) path <;> simp

/-- The function `find` returns is the entry of a prefix of the path. -/
theorem find_ok_prefix (s : PathSet Func) (path : Bytes) (func : Func)
    (h : s.find path = .ok func) :
    ∃ q, IsLongest (defined (entries s.root)) path q ∧ entries s.root q = some func := by
  have hsome : longest (entries s.root) path = some func := by
    rw [find_eq_longest] at h
    revert h
    cases longest (entries s.root) path <;> simp
  have hex : ∃ q, q <+: path ∧ entries s.root q ≠ none := by
    by_contra hno
    push Not at hno
    rw [(longest_eq_none_iff path _).mpr hno] at hsome
    exact absurd hsome (by simp)
  obtain ⟨q, hqp, hq⟩ := hex
  -- of the prefixes with an entry there is a longest one
  obtain ⟨r, hr⟩ := exists_isLongest (S := defined (entries s.root)) hq hqp
  exact ⟨r, hr, (longest_of_isLongest path _ r hr) ▸ hsome⟩

/-- **ROUTING IS LONGEST-PREFIX MATCH.**  After any sequence of `add_route`
calls, `find_route` returns the function most recently registered under the
longest registered non-empty path that is a prefix of the request path, and
the default function exactly if there is none (where `find` throws).  A call
with the empty path throws and changes no answer. -/
theorem find_route_longest_prefix [Inhabited Func] (dflt : Func)
    (calls : List (Bytes × Func)) (p : Bytes) :
    let r := (Router.new dflt).addRoutes calls
    (∀ q, IsLongest (registered calls) p q →
        ∃ func, latest calls q = some func ∧ r.set.find p = .ok func ∧ r.findRoute p = func) ∧
    (r.set.find p = .error "find failed" ↔ ∀ q ∈ registered calls, ¬ q <+: p) ∧
    ((∀ q ∈ registered calls, ¬ q <+: p) → r.findRoute p = dflt) ∧
    (∀ func, (r.addRoute [] func).1 = .error "insert failed" ∧
      (r.addRoute [] func).2.findRoute p = r.findRoute p) := by
  intro r
  have hdef := defined_entries_addRoutes dflt calls
  have herr : r.set.find p = .error "find failed" ↔ ∀ q ∈ registered calls, ¬ q <+: p := by
    rw [find_error_iff, hdef]
  refine ⟨?_, herr, ?_, ?_⟩
  · intro q hq
    have hlong := longest_of_isLongest p _ q (hdef ▸ hq)
    rw [entries_addRoutes, if_neg hq.mem.1] at hlong
    obtain ⟨func, hfunc⟩ := Option.ne_none_iff_exists'.mp
      ((latest_ne_none_iff calls q).mpr hq.mem.2)
    have hfind : r.set.find p = .ok func := by
      rw [find_eq_longest, hlong, hfunc]
    exact ⟨func, hfunc, hfind, by simp [Router.findRoute, hfind]⟩
  · -- where `find` throws the default function is returned
    intro hno
    rw [Router.findRoute, herr.mpr hno]
    exact addRoutes_defaultFunc _ calls
  · intro func
    exact ⟨rfl, rfl⟩

end Set

end Petrel
