/-
  Petrel.Core.LuaStateManager — the pools of Lua states.

  Lua states live in a shared pool, in the local pool of a worker thread, or
  with the request that handles its function on them.  A watcher thread keeps
  the shared pool filled.  A step of the machine is what a thread does between
  two points where another one can interfere: a worker does not leave its
  thread between the parts of `get_state` or of `free_state`, and a state that
  `create_state` is still making is known to nobody else.

  A request takes its state at the top of `handle_request` and gives it back
  at the end.  There is no owner that would give it back on the way out of an
  exception.

  Main results:
    * `managerStep_change` — what a step does with the states.
    * `states_exclusive_bounded` — no state is used twice, and the pools are
      bounded.
    * `states_conserved`   — no state or object is lost in a run whose
      requests all come to their normal end.
-/

import Petrel.Framework.Inventory
import Petrel.Framework.Machine

namespace Petrel

open Framework
open scoped List

/-! ## §1. The state manager. -/

abbrev StateId := Nat
abbrev ObjectId := Nat
abbrev RequestId := Nat

/-- How `create_state`, or loading the scripts into a pooled state, ends:
with a state, without one (`luaL_newstate` failed), or with an exception that
leaves the state to nobody. -/
inductive CreateOutcome where
  | ok
  | noState
  | leaks
  deriving DecidableEq

/-- A worker thread: its local pool, null before it is registered, and the
requests in `handle_request` with their states.  `peak` records how many of
them there were at most at one time. -/
structure StateWorker where
  pool : Option (List StateId) := none
  inFlight : List (RequestId × StateId) := []
  peak : Nat := 0
  deriving DecidableEq

/-- The watcher thread in its loop; `sizeRead` and `refilled` record the size
it has read last and the states it has made since. -/
structure Watcher where
  i : Int := 0
  sizeRead : Nat := 0
  refilled : Nat := 0
  deriving DecidableEq

/-- `lua_state_manager`, the threads that use it, and the history: which
states were destroyed, who made each object, which objects were deleted. -/
structure ManagerState (W : Type) where
  shared : List StateId := []
  worker : W → StateWorker := fun _ => {}
  bootstrap : Option StateId := none
  watcher : Watcher := {}
  objects : StateId → List ObjectId := fun _ => []   -- `p_objects`
  created : StateId := 0
  destroyed : List StateId := []
  requests : RequestId := 0
  makers : List (Option RequestId) := []              -- none for the bootstrap
  deleted : List ObjectId := []
  exited : Bool := false

/-- `lua.statebuffer` and `lua.devmode`. -/
structure ManagerOptions where
  statebuffer : Int := 5
  devmode : Bool := false

inductive ManagerAction (W : Type) where
  | openPool (w : W)                        -- the task of `register_io_service`
  | closePool (w : W)                       -- the task of `unregister_io_service`
  | watch                                   -- the watcher reads the pool size
  | refill (out : CreateOutcome)            -- one turn of its loop
  | bootstrap (out : CreateOutcome)
  | bootstrapEnd (ok : Bool)
  | getState (w : W) (out : CreateOutcome)  -- a request begins
  | newObject (w : W) (r : RequestId)       -- `lib_new` in its handler
  | bootstrapObject
  | endRequest (w : W) (r : RequestId) (freed : Bool)
  | exit                                    -- the dtor

/-! ## §2. The steps. -/

/-- `to_create = buffer_size - m_state_cache.size()` and `int i = to_create`:
the difference is of type `size_t`, and narrowed to 32 bits. -/
def toCreate (bufferSize : Int) (size : Nat) : Int :=
  ((BitVec.ofInt 64 bufferSize - BitVec.ofNat 64 size).setWidth 32).toInt

section Steps

variable {W : Type} [DecidableEq W]

def ManagerState.setWorker (s : ManagerState W) (w : W) (c : StateWorker) : ManagerState W :=
  { s with worker := Function.update s.worker w c }

/-- Delete the objects of a state. -/
def ManagerState.deleteObjects (s : ManagerState W) (x : StateId) : ManagerState W :=
  { s with
    objects := Function.update s.objects x []
    deleted := s.deleted ++ s.objects x }

/-- `destroy_state`. -/
def ManagerState.destroyState (s : ManagerState W) (x : StateId) : ManagerState W :=
  { s.deleteObjects x with destroyed := x :: s.destroyed }

/-- `destroy_state` for each state of a pool. -/
def ManagerState.destroyStates (s : ManagerState W) (xs : List StateId) : ManagerState W :=
  xs.foldl ManagerState.destroyState s

/-- `free_state` on the worker `w`. -/
def ManagerState.freeState (s : ManagerState W) (w : W) (x : StateId) : ManagerState W :=
  let s := s.deleteObjects x
  match (s.worker w).pool with
  | some pool => s.setWorker w { s.worker w with pool := some (pool ++ [x]) }
  | none => { s with shared := s.shared ++ [x] }

/-- A request begins on the worker `w` with the state `x`. -/
def ManagerState.hold (s : ManagerState W) (w : W) (x : StateId) : ManagerState W :=
  let c := s.worker w
  { s.setWorker w { c with
      inFlight := (s.requests, x) :: c.inFlight
      peak := max c.peak (c.inFlight.length + 1) } with
    requests := s.requests + 1 }

/-- `get_state` with a state from a pool: in dev mode the scripts are loaded
again, and an exception drops the state. -/
def ManagerState.takeState (o : ManagerOptions) (s : ManagerState W) (w : W) (x : StateId) :
    CreateOutcome → Option (ManagerState W)
  | .ok => some (s.hold w x)
  -- the state is in no pool any more, and nobody has it
  | .leaks => if o.devmode then some { s with requests := s.requests + 1 } else none
  | .noState => none

/-- `get_state` for a new request on the worker `w`. -/
def getStateStep (o : ManagerOptions) (s : ManagerState W) (w : W) (out : CreateOutcome) :
    Option (ManagerState W) :=
  let c := s.worker w
  match c.pool.bind List.getLast? with
  | some x => (s.setWorker w { c with pool := c.pool.map List.dropLast }).takeState o w x out
  | none =>
      -- the local pool has none: the shared one, under the lock
      match s.shared.getLast? with
      | some x => { s with shared := s.shared.dropLast }.takeState o w x out
      | none =>
          -- neither has one: `create_state` in the request
          match out with
          | .ok => some ({ s with created := s.created + 1 }.hold w s.created)
          | .noState => some { s with requests := s.requests + 1 }
          | .leaks => some { s with created := s.created + 1, requests := s.requests + 1 }

/-- The state a request in flight works on. -/
def StateWorker.stateOf (c : StateWorker) (r : RequestId) : Option StateId :=
  (c.inFlight.find? (fun p => p.1 = r)).map Prod.snd

/-- The end of `handle_request`, with `free_state` or by an exception. -/
def endRequestStep (s : ManagerState W) (w : W) (r : RequestId) (freed : Bool) :
    Option (ManagerState W) :=
  (s.worker w).stateOf r |>.map fun x =>
    let c := s.worker w
    let t := s.setWorker w { c with inFlight := c.inFlight.filter (fun p => p.1 ≠ r) }
    -- an exception goes past `free_state`
    if freed then t.freeState w x else t

/-- `lib_new` on the state `x`. -/
def ManagerState.newObject (s : ManagerState W) (x : StateId) (maker : Option RequestId) :
    ManagerState W :=
  { s with
    objects := Function.update s.objects x (s.objects x ++ [s.makers.length])
    makers := s.makers ++ [maker] }

/-- The watcher reads the size of the shared pool. -/
def watchStep (o : ManagerOptions) (s : ManagerState W) : Option (ManagerState W) :=
  if s.watcher.i > 0 then none
  else some { s with watcher :=
    { i := toCreate o.statebuffer s.shared.length, sizeRead := s.shared.length, refilled := 0 } }

/-- The loop of the watcher: after an exception it starts over. -/
def refillStep (s : ManagerState W) (out : CreateOutcome) : Option (ManagerState W) :=
  if s.watcher.i > 0 then
    match out with
    | .ok => some { s with
        shared := s.shared ++ [s.created]
        created := s.created + 1
        watcher := { s.watcher with i := s.watcher.i - 1, refilled := s.watcher.refilled + 1 } }
    | .noState => some { s with watcher := { s.watcher with i := 0 } }
    | .leaks => some { s with created := s.created + 1, watcher := { s.watcher with i := 0 } }
  else none

/-- `lua_engine::bootstrap` up to the call of the bootstrap function. -/
def bootstrapStep (s : ManagerState W) (out : CreateOutcome) : Option (ManagerState W) :=
  match s.bootstrap, out with
  | none, .ok => some { s with bootstrap := some s.created, created := s.created + 1 }
  | none, .noState => some s
  | none, .leaks => some { s with created := s.created + 1 }
  | some _, _ => none

/-- The dtor, which joins the watcher first. -/
def exitStep (s : ManagerState W) : Option (ManagerState W) :=
  if s.watcher.i > 0 then none
  else some { { s with shared := [] }.destroyStates s.shared with exited := true }

/-- A step of the running process. -/
def runningStep (o : ManagerOptions) (s : ManagerState W) : ManagerAction W → Option (ManagerState W)
  | .openPool w => some (s.setWorker w { s.worker w with pool := some [] })
  | .closePool w =>
      (s.worker w).pool.map fun pool =>
        (s.setWorker w { s.worker w with pool := none }).destroyStates pool
  | .watch => watchStep o s
  | .refill out => refillStep s out
  | .bootstrap out => bootstrapStep s out
  | .bootstrapEnd ok =>
      s.bootstrap.map fun x =>
        let t := { s with bootstrap := none }
        if ok then t.destroyState x else t
  | .getState w out => getStateStep o s w out
  | .newObject w r => (s.worker w).stateOf r |>.map fun x => s.newObject x (some r)
  | .bootstrapObject => s.bootstrap.map fun x => s.newObject x none
  | .endRequest w r freed => endRequestStep s w r freed
  | .exit => exitStep s

def managerStep (o : ManagerOptions) (s : ManagerState W) (a : ManagerAction W) :
    Option (ManagerState W) :=
  if s.exited then none else runningStep o s a

theorem runningStep_of_managerStep {o : ManagerOptions} {s t : ManagerState W} {a : ManagerAction W}
    (h : managerStep o s a = some t) : runningStep o s a = some t := by
  unfold managerStep at h
  split at h
  · cases h
  · exact h

/-- The state manager and its threads. -/
def managerMachine (W : Type) [DecidableEq W] (o : ManagerOptions) :
    Machine (ManagerState W) (ManagerAction W) where
  init := {}
  step := managerStep o

/-! ## §3. Where the states are. -/

/-- What a step moves states between. -/
inductive Area (W : Type) where
  | shared
  | worker (w : W)
  | bootstrap
  | destroyed

/-- The states of a worker: its pool and those of its requests. -/
def StateWorker.states (c : StateWorker) : List StateId :=
  c.pool.getD [] ++ c.inFlight.map Prod.snd

/-- The inventory of the states. -/
def ManagerState.area (s : ManagerState W) : Inventory StateId (Area W)
  | .shared => s.shared
  | .worker w => (s.worker w).states
  | .bootstrap => s.bootstrap.toList
  | .destroyed => s.destroyed

/-- The steps that lose no state: `create_state` and the loading of scripts do
not throw, the bootstrap function and `handle_request` come to their normal
end, and no pool is replaced that holds states. -/
def KeepsStates (s : ManagerState W) : ManagerAction W → Prop
  | .openPool w => (s.worker w).pool.getD [] = []
  | .refill out | .bootstrap out | .getState _ out => out ≠ .leaks
  | .bootstrapEnd ok => ok = true
  | .endRequest _ _ freed => freed = true
  | _ => True

/-- What a step does with the states: it leaves them where they are, moves
some, stores a new one, or loses some. -/
inductive ManagerChange (s t : ManagerState W) (a : ManagerAction W) : Prop where
  | stay : t.created = s.created → (∀ r, t.area r ~ s.area r) → ManagerChange s t a
  | move (p q : Area W) (xs : List StateId) : t.created = s.created → p ≠ q →
      s.area p ~ xs ++ t.area p → t.area q ~ xs ++ s.area q →
      (∀ r, r ≠ p → r ≠ q → t.area r ~ s.area r) → ManagerChange s t a
  | store (q : Area W) : t.created = s.created + 1 → t.area q ~ s.created :: s.area q →
      (∀ r, r ≠ q → t.area r ~ s.area r) → ManagerChange s t a
  | lose (p : Area W) (xs : List StateId) : ¬ KeepsStates s a → s.created ≤ t.created →
      s.area p ~ xs ++ t.area p → (∀ r, r ≠ p → t.area r ~ s.area r) → ManagerChange s t a

theorem area_setWorker_self (s : ManagerState W) (w : W) (c : StateWorker) :
    (s.setWorker w c).area (.worker w) = c.states := by
  show (Function.update s.worker w c w).states = _
  rw [Function.update_self]

theorem area_setWorker_of_ne (s : ManagerState W) {w : W} (c : StateWorker) {r : Area W}
    (h : r ≠ .worker w) : (s.setWorker w c).area r = s.area r := by
  cases r with
  | shared | bootstrap | destroyed => rfl
  | worker v =>
      have hv : v ≠ w := fun hv => h (by rw [hv])
      show (Function.update s.worker w c v).states = _
      rw [Function.update_of_ne hv]
      rfl

omit [DecidableEq W] in
theorem area_deleteObjects (s : ManagerState W) (x : StateId) : (s.deleteObjects x).area = s.area := by
  funext r
  cases r <;> rfl

omit [DecidableEq W] in
/-- Destroying states stores them among the destroyed ones. -/
theorem area_destroyStates (xs : List StateId) (s : ManagerState W) :
    (s.destroyStates xs).area .destroyed ~ xs ++ s.area .destroyed ∧
      (∀ r, r ≠ .destroyed → (s.destroyStates xs).area r = s.area r) ∧
      (s.destroyStates xs).created = s.created := by
  induction xs generalizing s with
  | nil => exact ⟨.refl _, fun _ _ => rfl, rfl⟩
  | cons x xs ih =>
      obtain ⟨hd, hr, hc⟩ := ih (s.destroyState x)
      refine ⟨?_, ?_, hc⟩
      · exact hd.trans List.perm_middle
      · intro r hne
        refine (hr r hne).trans ?_
        cases r with
        | shared | worker | bootstrap => rfl
        | destroyed => exact absurd rfl hne

/-- Holding a state brings it to the worker. -/
theorem area_hold (s : ManagerState W) (w : W) (x : StateId) :
    (s.hold w x).area (.worker w) ~ x :: s.area (.worker w) ∧
      ∀ r, r ≠ .worker w → (s.hold w x).area r = s.area r := by
  constructor
  · refine (List.Perm.of_eq (area_setWorker_self s w _)).trans ?_
    exact List.perm_middle
  · intro r hr
    exact (area_setWorker_of_ne s _ hr)

/-! ## §4. What each step does with the states. -/

/-- With a state from a pool a request begins, or the state is dropped. -/
theorem takeState_cases {o : ManagerOptions} {s t : ManagerState W} {w : W} {x : StateId}
    {out : CreateOutcome} (h : s.takeState o w x out = some t) :
    out = .ok ∧ t = s.hold w x ∨ out = .leaks ∧ t = { s with requests := s.requests + 1 } := by
  unfold ManagerState.takeState at h
  cases out with
  | noState => cases h
  | ok => exact .inl ⟨rfl, (Option.some.inj h).symm⟩
  | leaks =>
      simp only at h
      split at h
      · exact .inr ⟨rfl, (Option.some.inj h).symm⟩
      · cases h

/-- The ways of `get_state`: it takes the last state of the worker's pool or
of the shared one, or it creates a state, or that fails. -/
inductive GetStateCase (o : ManagerOptions) (s : ManagerState W) (w : W) (out : CreateOutcome)
    (t : ManagerState W) : Prop where
  | pool {init : List StateId} {x : StateId} (hpool : (s.worker w).pool = some (init ++ [x]))
      (h : (s.setWorker w { s.worker w with pool := some init }).takeState o w x out = some t)
  | shared {init : List StateId} {x : StateId} (hempty : (s.worker w).pool.getD [] = [])
      (hshared : s.shared = init ++ [x]) (h : { s with shared := init }.takeState o w x out = some t)
  | created (hempty : (s.worker w).pool.getD [] = []) (hout : out = .ok)
      (ht : t = { s with created := s.created + 1 }.hold w s.created)
  | noState (hout : out = .noState) (ht : t = { s with requests := s.requests + 1 })
  | leaks (hout : out = .leaks)
      (ht : t = { s with created := s.created + 1, requests := s.requests + 1 })

theorem getState_cases {o : ManagerOptions} {s t : ManagerState W} {w : W} {out : CreateOutcome}
    (h : getStateStep o s w out = some t) : GetStateCase o s w out t := by
  unfold getStateStep at h
  cases hpool : (s.worker w).pool.bind List.getLast? with
  | some x =>
      simp only [hpool] at h
      obtain ⟨pool, hc, hlast⟩ := Option.bind_eq_some_iff.mp hpool
      obtain ⟨init, rfl⟩ := List.getLast?_eq_some_iff.mp hlast
      rw [hc, Option.map_some, List.dropLast_concat] at h
      exact .pool hc h
  | none =>
      simp only [hpool] at h
      -- a pool without a last state is empty, and a null one counts as empty
      have hempty : (s.worker w).pool.getD [] = [] := by
        cases hp : (s.worker w).pool with
        | none => rfl
        | some pool =>
            rw [hp] at hpool
            exact List.getLast?_eq_none_iff.mp hpool
      cases hshared : s.shared.getLast? with
      | some x =>
          simp only [hshared] at h
          obtain ⟨init, hinit⟩ := List.getLast?_eq_some_iff.mp hshared
          rw [hinit, List.dropLast_concat] at h
          exact .shared hempty hinit h
      | none =>
          simp only [hshared] at h
          cases out with
          | ok => exact .created hempty rfl (Option.some.inj h).symm
          | noState => exact .noState rfl (Option.some.inj h).symm
          | leaks => exact .leaks rfl (Option.some.inj h).symm

omit [DecidableEq W] in
/-- The watcher reads the size of the pool only between two of its loops. -/
theorem watch_cases {o : ManagerOptions} {s t : ManagerState W} (h : watchStep o s = some t) :
    ¬ s.watcher.i > 0 ∧ t = { s with watcher :=
      { i := toCreate o.statebuffer s.shared.length, sizeRead := s.shared.length, refilled := 0 } } := by
  unfold watchStep at h
  split at h
  · cases h
  · rename_i hi
    exact ⟨hi, (Option.some.inj h).symm⟩

/-- A turn of the watcher's loop makes a state, or it is the last one. -/
inductive RefillCase (s : ManagerState W) (out : CreateOutcome) (t : ManagerState W) : Prop where
  | made (hi : s.watcher.i > 0) (hout : out = .ok) (ht : t = { s with
      shared := s.shared ++ [s.created]
      created := s.created + 1
      watcher := { s.watcher with i := s.watcher.i - 1, refilled := s.watcher.refilled + 1 } })
  | noState (hi : s.watcher.i > 0) (hout : out = .noState)
      (ht : t = { s with watcher := { s.watcher with i := 0 } })
  | leaks (hi : s.watcher.i > 0) (hout : out = .leaks)
      (ht : t = { s with created := s.created + 1, watcher := { s.watcher with i := 0 } })

omit [DecidableEq W] in
theorem refill_cases {s t : ManagerState W} {out : CreateOutcome} (h : refillStep s out = some t) :
    RefillCase s out t := by
  unfold refillStep at h
  split at h
  · rename_i hi
    cases out with
    | ok => exact .made hi rfl (Option.some.inj h).symm
    | noState => exact .noState hi rfl (Option.some.inj h).symm
    | leaks => exact .leaks hi rfl (Option.some.inj h).symm
  · cases h

/-- The bootstrap gets a state, or none. -/
inductive BootstrapCase (s : ManagerState W) (out : CreateOutcome) (t : ManagerState W) : Prop where
  | made (hnone : s.bootstrap = none) (hout : out = .ok)
      (ht : t = { s with bootstrap := some s.created, created := s.created + 1 })
  | noState (hout : out = .noState) (ht : t = s)
  | leaks (hout : out = .leaks) (ht : t = { s with created := s.created + 1 })

omit [DecidableEq W] in
theorem bootstrap_cases {s t : ManagerState W} {out : CreateOutcome}
    (h : bootstrapStep s out = some t) : BootstrapCase s out t := by
  unfold bootstrapStep at h
  split at h
  · rename_i hnone
    exact .made hnone rfl (Option.some.inj h).symm
  · exact .noState rfl (Option.some.inj h).symm
  · exact .leaks rfl (Option.some.inj h).symm
  · cases h

omit [DecidableEq W] in
theorem exit_cases {s t : ManagerState W} (h : exitStep s = some t) :
    t = { { s with shared := [] }.destroyStates s.shared with exited := true } := by
  unfold exitStep at h
  split at h
  · cases h
  · exact (Option.some.inj h).symm

/-- Where the state that `get_state` takes comes from: the inventory `m` is
that of `s` without `x` at `p`. -/
theorem takeState_change {o : ManagerOptions} {s m t : ManagerState W} {w : W} {x : StateId}
    {out : CreateOutcome} {p : Area W} (hcreated : m.created = s.created)
    (hp : s.area p ~ x :: m.area p) (hother : ∀ r, r ≠ p → m.area r = s.area r)
    (h : m.takeState o w x out = some t) : ManagerChange s t (.getState w out) := by
  rcases takeState_cases h with ⟨rfl, rfl⟩ | ⟨rfl, rfl⟩
  · obtain ⟨hw, hrest⟩ := area_hold m w x
    by_cases hpw : p = .worker w
    · -- from the local pool of the worker to one of its requests
      subst hpw
      refine .stay hcreated ?_
      intro r
      by_cases hr : r = .worker w
      · subst hr
        exact hw.trans hp.symm
      · exact .of_eq ((hrest r hr).trans (hother r hr))
    · refine .move p (.worker w) [x] hcreated hpw ?_ ?_ ?_
      · rw [hrest p hpw]
        exact hp
      · rw [← hother (.worker w) (Ne.symm hpw)]
        exact hw
      · intro r hrp hrw
        exact .of_eq ((hrest r hrw).trans (hother r hrp))
  · refine .lose p [x] (fun hk => hk rfl) hcreated.ge hp ?_
    intro r hr
    exact .of_eq (hother r hr)

theorem getState_change {o : ManagerOptions} {s t : ManagerState W} {w : W} {out : CreateOutcome}
    (h : getStateStep o s w out = some t) : ManagerChange s t (.getState w out) := by
  cases getState_cases h with
  | @pool init x hpool h =>
      refine takeState_change (m := s.setWorker w _) (p := .worker w) rfl ?_ ?_ h
      · rw [area_setWorker_self]
        show (s.worker w).states ~ _
        unfold StateWorker.states
        rw [hpool]
        simp only [Option.getD_some, List.append_assoc, List.singleton_append]
        exact List.perm_middle
      · exact fun r hr => area_setWorker_of_ne s _ hr
  | @shared init x hempty hshared h =>
      refine takeState_change (m := { s with shared := init }) (p := .shared) rfl ?_ ?_ h
      · show s.shared ~ x :: init
        rw [hshared]
        exact List.perm_append_singleton x init
      · intro r hr
        cases r with
        | shared => exact absurd rfl hr
        | worker | bootstrap | destroyed => rfl
  | created hempty hout ht =>
      subst hout ht
      obtain ⟨hw, hrest⟩ := area_hold { s with created := s.created + 1 } w s.created
      exact .store (.worker w) rfl hw (fun r hr => .of_eq ((hrest r hr).trans (by cases r <;> rfl)))
  | noState hout ht =>
      subst hout ht
      exact .stay rfl (fun r => by cases r <;> exact .refl _)
  | leaks hout ht =>
      subst hout ht
      exact .lose .shared [] (fun hk => hk rfl) (Nat.le_succ _) (.refl _)
        (fun r _ => by cases r <;> exact .refl _)

omit [DecidableEq W] in
/-- The request that ends is the only one of its number. -/
theorem inFlight_perm {c : StateWorker} (hnodup : (c.inFlight.map Prod.fst).Nodup) {r : RequestId}
    {x : StateId} (h : c.stateOf r = some x) :
    c.inFlight ~ (r, x) :: c.inFlight.filter (fun p => p.1 ≠ r) := by
  unfold StateWorker.stateOf at h
  generalize c.inFlight = l at hnodup h
  induction l with
  | nil => cases h
  | cons p l ih =>
      obtain ⟨hp, hl⟩ := List.nodup_cons.mp hnodup
      by_cases hpr : p.1 = r
      · subst hpr
        -- no other request has its number
        have hrest : l.filter (fun q => q.1 ≠ p.1) = l := by
          refine List.filter_eq_self.mpr ?_
          intro q hq
          have hqp : q.1 ≠ p.1 := fun hqp => hp (hqp ▸ List.mem_map_of_mem hq)
          simpa using hqp
        rw [List.find?_cons_of_pos (by simp)] at h
        obtain rfl : p.2 = x := Option.some.inj h
        rw [List.filter_cons_of_neg (by simp), hrest]
      · rw [List.find?_cons_of_neg (by simpa using hpr)] at h
        rw [List.filter_cons_of_pos (by simpa using hpr)]
        exact ((ih hl h).cons p).trans (.swap _ _ _)

/-- The worker without the request `r`. -/
def StateWorker.without (c : StateWorker) (r : RequestId) : StateWorker :=
  { c with inFlight := c.inFlight.filter (fun p => p.1 ≠ r) }

/-- The ways a request ends with its state `x`: an exception leaves the state
behind, or `free_state` puts it into the worker's pool or the shared one. -/
inductive EndRequestCase (s : ManagerState W) (w : W) (r : RequestId) (x : StateId) (freed : Bool)
    (t : ManagerState W) : Prop where
  | failed (hfreed : freed = false) (ht : t = s.setWorker w ((s.worker w).without r))
  | pooled {pool : List StateId} (hfreed : freed = true) (hpool : (s.worker w).pool = some pool)
      (ht : t = ((s.setWorker w ((s.worker w).without r)).deleteObjects x).setWorker w
        { (s.worker w).without r with pool := some (pool ++ [x]) })
  | shared (hfreed : freed = true) (hpool : (s.worker w).pool = none)
      (ht : t = { (s.setWorker w ((s.worker w).without r)).deleteObjects x with
        shared := s.shared ++ [x] })

theorem endRequest_cases {s t : ManagerState W} {w : W} {r : RequestId} {freed : Bool}
    (h : endRequestStep s w r freed = some t) :
    ∃ x, (s.worker w).stateOf r = some x ∧ EndRequestCase s w r x freed t := by
  obtain ⟨x, hx, hend⟩ := Option.map_eq_some_iff.mp h
  refine ⟨x, hx, ?_⟩
  cases freed with
  | false => exact .failed rfl hend.symm
  | true =>
      have hfree : (s.setWorker w ((s.worker w).without r)).freeState w x = t := hend
      unfold ManagerState.freeState at hfree
      have hdelete : ((s.setWorker w ((s.worker w).without r)).deleteObjects x).worker w =
          (s.worker w).without r := Function.update_self ..
      simp only [hdelete] at hfree
      cases hpool : (s.worker w).pool with
      | none =>
          rw [show ((s.worker w).without r).pool = none from hpool] at hfree
          exact .shared rfl hpool hfree.symm
      | some pool =>
          rw [show ((s.worker w).without r).pool = some pool from hpool] at hfree
          exact .pooled rfl hpool hfree.symm

theorem endRequest_change {s t : ManagerState W} {w : W} {r : RequestId} {freed : Bool}
    (hnodup : ((s.worker w).inFlight.map Prod.fst).Nodup)
    (h : endRequestStep s w r freed = some t) : ManagerChange s t (.endRequest w r freed) := by
  obtain ⟨x, hx, hcase⟩ := endRequest_cases h
  have hperm := (inFlight_perm hnodup hx).map Prod.snd
  have hstates : (s.worker w).states ~ x :: ((s.worker w).without r).states :=
    (hperm.append_left _).trans List.perm_middle
  cases hcase with
  | failed hfreed ht =>
      subst hfreed ht
      refine .lose (.worker w) [x] (fun hk => by cases hk) le_rfl ?_ ?_
      · rw [area_setWorker_self]
        exact hstates
      · intro q hq
        rw [area_setWorker_of_ne s _ hq]
  | @pooled pool hfreed hpool ht =>
      subst hfreed ht
      -- from a request of the worker to its pool: the same area
      refine .stay rfl ?_
      intro q
      by_cases hq : q = .worker w
      · subst hq
        rw [area_setWorker_self]
        refine List.Perm.trans ?_ hstates.symm
        unfold StateWorker.states
        rw [show ((s.worker w).without r).pool = some pool from hpool]
        simp only [Option.getD_some, List.append_assoc, List.singleton_append]
        exact List.perm_middle
      · rw [area_setWorker_of_ne _ _ hq, area_deleteObjects, area_setWorker_of_ne s _ hq]
  | shared hfreed hpool ht =>
      subst hfreed ht
      refine .move (.worker w) .shared [x] rfl (by simp) ?_ ?_ ?_
      · show (s.worker w).states ~ [x] ++ (Function.update s.worker w _ w).states
        rw [Function.update_self]
        exact hstates
      · exact List.perm_append_singleton x s.shared
      · intro q hqw hqs
        have hsame : (s.setWorker w ((s.worker w).without r)).area q = s.area q :=
          area_setWorker_of_ne s _ hqw
        rw [← hsame]
        cases q with
        | shared => exact absurd rfl hqs
        | worker | bootstrap | destroyed => exact .refl _

omit [DecidableEq W] in
theorem refill_change {s t : ManagerState W} {out : CreateOutcome} (h : refillStep s out = some t) :
    ManagerChange s t (.refill out) := by
  cases refill_cases h with
  | made hi hout ht =>
      subst hout ht
      refine .store .shared rfl (List.perm_append_singleton s.created s.shared) ?_
      intro r hr
      cases r with
      | shared => exact absurd rfl hr
      | worker | bootstrap | destroyed => exact .refl _
  | noState hi hout ht =>
      subst hout ht
      exact .stay rfl (fun r => by cases r <;> exact .refl _)
  | leaks hi hout ht =>
      subst hout ht
      exact .lose .shared [] (fun hk => hk rfl) (Nat.le_succ _) (.refl _)
        (fun r _ => by cases r <;> exact .refl _)

omit [DecidableEq W] in
theorem bootstrap_change {s t : ManagerState W} {out : CreateOutcome}
    (h : bootstrapStep s out = some t) : ManagerChange s t (.bootstrap out) := by
  cases bootstrap_cases h with
  | made hnone hout ht =>
      subst hout ht
      refine .store .bootstrap rfl ?_ ?_
      · show [s.created] ~ s.created :: s.bootstrap.toList
        rw [hnone]
        exact .refl _
      · intro r hr
        cases r with
        | bootstrap => exact absurd rfl hr
        | worker | shared | destroyed => exact .refl _
  | noState hout ht =>
      subst hout ht
      exact .stay rfl (fun r => .refl _)
  | leaks hout ht =>
      subst hout ht
      exact .lose .shared [] (fun hk => hk rfl) (Nat.le_succ _) (.refl _)
        (fun r _ => by cases r <;> exact .refl _)

omit [DecidableEq W] in
theorem bootstrapEnd_change {s t : ManagerState W} {ok : Bool}
    (h : (s.bootstrap.map fun x =>
      let t := { s with bootstrap := none }
      if ok then t.destroyState x else t) = some t) : ManagerChange s t (.bootstrapEnd ok) := by
  obtain ⟨x, hx, hend⟩ := Option.map_eq_some_iff.mp h
  have hfrom : s.area .bootstrap = [x] := by
    show s.bootstrap.toList = [x]
    rw [hx]
    rfl
  cases ok with
  | false =>
      obtain rfl := hend
      -- after an exception nobody destroys the state
      refine .lose .bootstrap [x] (fun hk => by cases hk) le_rfl (.of_eq hfrom) ?_
      intro r hr
      cases r with
      | bootstrap => exact absurd rfl hr
      | worker | shared | destroyed => exact .refl _
  | true =>
      obtain rfl := hend
      refine .move .bootstrap .destroyed [x] rfl (by simp) (.of_eq hfrom) (.refl _) ?_
      intro r hr hr'
      cases r with
      | bootstrap => exact absurd rfl hr
      | destroyed => exact absurd rfl hr'
      | worker | shared => exact .refl _

omit [DecidableEq W] in
/-- The two loops that destroy the states of a pool. -/
theorem destroyStates_change {s m t : ManagerState W} {a : ManagerAction W} {p : Area W}
    {xs : List StateId} (hcreated : m.created = s.created) (hne : p ≠ .destroyed)
    (hp : s.area p ~ xs ++ m.area p) (hother : ∀ r, r ≠ p → m.area r = s.area r)
    (ht : t.area = (m.destroyStates xs).area) (htc : t.created = (m.destroyStates xs).created) :
    ManagerChange s t a := by
  obtain ⟨hd, hr, hc⟩ := area_destroyStates xs m
  refine .move p .destroyed xs ?_ hne ?_ ?_ ?_
  · rw [htc, hc, hcreated]
  · rw [ht, hr p hne]
    exact hp
  · rw [ht, ← hother .destroyed (Ne.symm hne)]
    exact hd
  · intro r hrp hrd
    rw [ht, hr r hrd, hother r hrp]

/-- The requests in flight at each worker. -/
def ManagerState.running (s : ManagerState W) : Inventory RequestId W :=
  fun w => (s.worker w).inFlight.map Prod.fst

/-- **What a step does with the states.** -/
theorem managerStep_change {o : ManagerOptions} {s t : ManagerState W} {a : ManagerAction W}
    (hrunning : s.running.Exclusive) (h : managerStep o s a = some t) : ManagerChange s t a := by
  replace h := runningStep_of_managerStep h
  cases a with
  | openPool w =>
      obtain rfl := Option.some.inj h
      have hstates : s.area (.worker w) ~ (s.worker w).pool.getD [] ++
          (s.setWorker w { s.worker w with pool := some [] }).area (.worker w) := by
        rw [area_setWorker_self]
        exact .refl _
      -- a pool that is replaced while it holds states loses them
      by_cases hpool : (s.worker w).pool.getD [] = []
      · rw [hpool] at hstates
        refine .stay rfl ?_
        intro r
        by_cases hr : r = .worker w
        · subst hr
          exact hstates.symm
        · rw [area_setWorker_of_ne _ _ hr]
      · refine .lose (.worker w) _ hpool le_rfl hstates ?_
        intro r hr
        rw [area_setWorker_of_ne _ _ hr]
  | closePool w =>
      obtain ⟨pool, hpool, rfl⟩ := Option.map_eq_some_iff.mp h
      refine destroyStates_change (m := s.setWorker w { s.worker w with pool := none })
        (p := .worker w) rfl (by simp) ?_ ?_ rfl rfl
      · rw [area_setWorker_self]
        show (s.worker w).states ~ _
        unfold StateWorker.states
        rw [hpool]
        exact .refl _
      · exact fun r hr => area_setWorker_of_ne s _ hr
  | watch =>
      obtain ⟨-, rfl⟩ := watch_cases h
      exact .stay rfl (fun r => by cases r <;> exact .refl _)
  | refill out => exact refill_change h
  | bootstrap out => exact bootstrap_change h
  | bootstrapEnd ok => exact bootstrapEnd_change h
  | getState w out => exact getState_change h
  | newObject w r =>
      obtain ⟨x, -, rfl⟩ := Option.map_eq_some_iff.mp h
      exact .stay rfl (fun r => by cases r <;> exact .refl _)
  | bootstrapObject =>
      obtain ⟨x, -, rfl⟩ := Option.map_eq_some_iff.mp h
      exact .stay rfl (fun r => by cases r <;> exact .refl _)
  | endRequest w r freed => exact endRequest_change (hrunning.once w) h
  | exit =>
      obtain rfl := exit_cases h
      refine destroyStates_change (m := { s with shared := [] }) (p := .shared) rfl (by simp)
        ?_ ?_ (by funext r; cases r <;> rfl) rfl
      · show s.shared ~ s.shared ++ []
        rw [List.append_nil]
      · intro r hr
        cases r with
        | shared => exact absurd rfl hr
        | worker | bootstrap | destroyed => rfl

/-! ## §5. What each step does with the requests and their objects. -/

/-- What a step does with the requests: one begins, one ends, or none. -/
inductive RequestChange (s t : ManagerState W) (a : ManagerAction W) : Prop where
  | same : (∀ w, (t.worker w).inFlight = (s.worker w).inFlight) → s.requests ≤ t.requests →
      RequestChange s t a
  | begin (w : W) (x : StateId) :
      (t.worker w).inFlight = (s.requests, x) :: (s.worker w).inFlight →
      (∀ v, v ≠ w → (t.worker v).inFlight = (s.worker v).inFlight) →
      t.requests = s.requests + 1 → RequestChange s t a
  | ended (w : W) (r : RequestId) (freed : Bool) (x : StateId) : a = .endRequest w r freed →
      (s.worker w).stateOf r = some x →
      (t.worker w).inFlight = (s.worker w).inFlight.filter (fun p => p.1 ≠ r) →
      (∀ v, v ≠ w → (t.worker v).inFlight = (s.worker v).inFlight) →
      t.requests = s.requests → (freed = true → ∀ ob ∈ s.objects x, ob ∈ t.deleted) →
      RequestChange s t a

/-- No object disappears: it stays with its state or is deleted. -/
structure KeepsObjects (s t : ManagerState W) : Prop where
  deleted : ∀ ob ∈ s.deleted, ob ∈ t.deleted
  objects : ∀ x, ∀ ob ∈ s.objects x, ob ∈ t.objects x ∨ ob ∈ t.deleted

/-- What a step does with the objects: it may make one, for a request that is
in flight or for the bootstrap. -/
inductive ObjectChange (s t : ManagerState W) (a : ManagerAction W) : Prop where
  | same : KeepsObjects s t → t.makers = s.makers → ObjectChange s t a
  | made (w : W) (r : RequestId) (x : StateId) : a = .newObject w r → KeepsObjects s t →
      (s.worker w).stateOf r = some x → s.makers.length ∈ t.objects x →
      t.makers = s.makers ++ [some r] → ObjectChange s t a
  | booted : KeepsObjects s t → t.makers = s.makers ++ [none] → ObjectChange s t a

omit [DecidableEq W] in
theorem KeepsObjects.of_eq {s t : ManagerState W} (ho : t.objects = s.objects)
    (hd : t.deleted = s.deleted) : KeepsObjects s t :=
  ⟨fun _ h => hd ▸ h, fun _ _ h => .inl (ho ▸ h)⟩

omit [DecidableEq W] in
theorem KeepsObjects.trans {s t u : ManagerState W} (h : KeepsObjects s t) (h' : KeepsObjects t u) :
    KeepsObjects s u := by
  refine ⟨fun ob hob => h'.deleted ob (h.deleted ob hob), ?_⟩
  intro x ob hob
  rcases h.objects x ob hob with hob | hob
  · exact h'.objects x ob hob
  · exact .inr (h'.deleted ob hob)

omit [DecidableEq W] in
theorem keepsObjects_deleteObjects (s : ManagerState W) (x : StateId) :
    KeepsObjects s (s.deleteObjects x) := by
  refine ⟨fun ob hob => List.mem_append_left _ hob, ?_⟩
  intro y ob hob
  by_cases hy : y = x
  · subst hy
    exact .inr (List.mem_append_right _ hob)
  · exact .inl (by
      show ob ∈ Function.update s.objects x [] y
      rw [Function.update_of_ne hy]
      exact hob)

omit [DecidableEq W] in
theorem keepsObjects_destroyStates (xs : List StateId) (s : ManagerState W) :
    KeepsObjects s (s.destroyStates xs) ∧ (s.destroyStates xs).makers = s.makers ∧
      (s.destroyStates xs).worker = s.worker ∧ (s.destroyStates xs).requests = s.requests := by
  induction xs generalizing s with
  | nil => exact ⟨.of_eq rfl rfl, rfl, rfl, rfl⟩
  | cons x xs ih =>
      obtain ⟨hk, hm, hw, hr⟩ := ih (s.destroyState x)
      have hx : KeepsObjects s (s.destroyState x) :=
        (keepsObjects_deleteObjects s x).trans (.of_eq rfl rfl)
      exact ⟨hx.trans hk, hm, hw, hr⟩

/-- A worker's pool changes. -/
theorem inFlight_setWorker {s : ManagerState W} {w : W} {c : StateWorker}
    (h : c.inFlight = (s.worker w).inFlight) (v : W) :
    ((s.setWorker w c).worker v).inFlight = (s.worker v).inFlight := by
  by_cases hv : v = w
  · subst hv
    rw [← h]
    exact congrArg StateWorker.inFlight (Function.update_self ..)
  · exact congrArg StateWorker.inFlight (Function.update_of_ne hv ..)

/-- A request begins with the state `x`; before that only pools changed. -/
theorem hold_request {s m : ManagerState W} {a : ManagerAction W} (w : W) (x : StateId)
    (hm : ∀ v, (m.worker v).inFlight = (s.worker v).inFlight) (hr : m.requests = s.requests) :
    RequestChange s (m.hold w x) a := by
  refine .begin w x ?_ ?_ ?_
  · rw [← hm w, ← hr]
    show (Function.update m.worker w _ w).inFlight = _
    rw [Function.update_self]
  · intro v hv
    rw [← hm v]
    exact congrArg StateWorker.inFlight (Function.update_of_ne hv ..)
  · show m.requests + 1 = s.requests + 1
    rw [hr]

theorem takeState_request {o : ManagerOptions} {s m t : ManagerState W} {a : ManagerAction W} {w : W}
    {x : StateId} {out : CreateOutcome} (hm : ∀ v, (m.worker v).inFlight = (s.worker v).inFlight)
    (hr : m.requests = s.requests) (h : m.takeState o w x out = some t) : RequestChange s t a := by
  rcases takeState_cases h with ⟨-, rfl⟩ | ⟨-, rfl⟩
  · exact hold_request w x hm hr
  · exact .same hm (hr ▸ Nat.le_succ m.requests)

theorem getState_request {o : ManagerOptions} {s t : ManagerState W} {a : ManagerAction W} {w : W}
    {out : CreateOutcome} (h : getStateStep o s w out = some t) : RequestChange s t a := by
  cases getState_cases h with
  | pool hpool h =>
      refine takeState_request ?_ ?_ h
      · exact inFlight_setWorker rfl
      · rfl
  | shared hempty hshared h =>
      refine takeState_request ?_ ?_ h
      · exact fun _ => rfl
      · rfl
  | created hempty hout ht =>
      subst ht
      exact hold_request (m := { s with created := s.created + 1 }) w _ (fun _ => rfl) rfl
  | noState hout ht =>
      subst ht
      exact .same (fun _ => rfl) (Nat.le_succ _)
  | leaks hout ht =>
      subst ht
      exact .same (fun _ => rfl) (Nat.le_succ _)

theorem takeState_objects {o : ManagerOptions} {s t : ManagerState W} {w : W} {x : StateId}
    {out : CreateOutcome} (h : s.takeState o w x out = some t) :
    t.objects = s.objects ∧ t.deleted = s.deleted ∧ t.makers = s.makers := by
  rcases takeState_cases h with ⟨-, rfl⟩ | ⟨-, rfl⟩
  · exact ⟨rfl, rfl, rfl⟩
  · exact ⟨rfl, rfl, rfl⟩

/-- `get_state` does not touch the objects. -/
theorem getState_objects {o : ManagerOptions} {s t : ManagerState W} {w : W} {out : CreateOutcome}
    (h : getStateStep o s w out = some t) :
    t.objects = s.objects ∧ t.deleted = s.deleted ∧ t.makers = s.makers := by
  cases getState_cases h with
  | pool hpool h => exact takeState_objects (s := s.setWorker w _) h
  | @shared init x hempty hshared h => exact takeState_objects (s := { s with shared := init }) h
  | created hempty hout ht => exact ht ▸ ⟨rfl, rfl, rfl⟩
  | noState hout ht => exact ht ▸ ⟨rfl, rfl, rfl⟩
  | leaks hout ht => exact ht ▸ ⟨rfl, rfl, rfl⟩

/-- `free_state` changes pools and the objects of the state. -/
theorem freeState_facts (s : ManagerState W) (w : W) (x : StateId) :
    (∀ v, ((s.freeState w x).worker v).inFlight = (s.worker v).inFlight) ∧
      (s.freeState w x).requests = s.requests ∧ (s.freeState w x).makers = s.makers ∧
      (s.freeState w x).deleted = s.deleted ++ s.objects x ∧ KeepsObjects s (s.freeState w x) := by
  have hdel := keepsObjects_deleteObjects s x
  unfold ManagerState.freeState
  have hworker : (s.deleteObjects x).worker = s.worker := rfl
  simp only [hworker]
  cases (s.worker w).pool with
  | some pool => exact ⟨inFlight_setWorker rfl, rfl, rfl, rfl, hdel.trans (.of_eq rfl rfl)⟩
  | none => exact ⟨fun _ => rfl, rfl, rfl, rfl, hdel.trans (.of_eq rfl rfl)⟩

theorem endRequest_request {s t : ManagerState W} {w : W} {r : RequestId} {freed : Bool}
    (h : endRequestStep s w r freed = some t) :
    RequestChange s t (.endRequest w r freed) ∧ ObjectChange s t (.endRequest w r freed) := by
  unfold endRequestStep at h
  obtain ⟨x, hx, hend⟩ := Option.map_eq_some_iff.mp h
  simp only at hend
  generalize hc : ({ s.worker w with
      inFlight := (s.worker w).inFlight.filter (fun p => p.1 ≠ r) } : StateWorker) = c at hend
  have hw : ((s.setWorker w c).worker w).inFlight = (s.worker w).inFlight.filter (fun p => p.1 ≠ r) := by
    show (Function.update s.worker w c w).inFlight = _
    rw [Function.update_self, ← hc]
  have hv : ∀ v, v ≠ w → ((s.setWorker w c).worker v).inFlight = (s.worker v).inFlight :=
    fun v hv => congrArg StateWorker.inFlight (Function.update_of_ne hv ..)
  cases freed with
  | false =>
      obtain rfl := hend
      exact ⟨.ended w r false x rfl hx hw hv rfl (fun hf => by cases hf), .same (.of_eq rfl rfl) rfl⟩
  | true =>
      rw [if_pos rfl] at hend
      obtain rfl := hend
      obtain ⟨hin, hreq, hmk, hdel, hkeep⟩ := freeState_facts (s.setWorker w c) w x
      -- `free_state` deletes the objects of the state
      have hset : KeepsObjects s (s.setWorker w c) := .of_eq rfl rfl
      refine ⟨.ended w r true x rfl hx ((hin w).trans hw) (fun v hvw => (hin v).trans (hv v hvw)) hreq ?_,
        .same (hset.trans hkeep) hmk⟩
      intro _ ob hob
      rw [hdel]
      exact List.mem_append_right _ hob

omit [DecidableEq W] in
/-- A new object is the last of its state. -/
theorem newObject_keeps (s : ManagerState W) (x : StateId) (maker : Option RequestId) :
    KeepsObjects s (s.newObject x maker) ∧ s.makers.length ∈ (s.newObject x maker).objects x := by
  have hx : (s.newObject x maker).objects x = s.objects x ++ [s.makers.length] :=
    Function.update_self ..
  refine ⟨⟨fun _ h => h, ?_⟩, by rw [hx]; exact List.mem_append_right _ (List.mem_singleton_self _)⟩
  intro y ob hob
  left
  by_cases hy : y = x
  · subst hy
    rw [hx]
    exact List.mem_append_left _ hob
  · have hother : (s.newObject x maker).objects y = s.objects y := Function.update_of_ne hy ..
    rw [hother]
    exact hob

/-- **What a step does with the requests and with the objects.** -/
theorem managerStep_requests {o : ManagerOptions} {s t : ManagerState W} {a : ManagerAction W}
    (h : managerStep o s a = some t) : RequestChange s t a ∧ ObjectChange s t a := by
  replace h := runningStep_of_managerStep h
  cases a with
  | openPool w =>
      obtain rfl := Option.some.inj h
      exact ⟨.same (inFlight_setWorker rfl) le_rfl, .same (.of_eq rfl rfl) rfl⟩
  | closePool w =>
      obtain ⟨pool, hpool, rfl⟩ := Option.map_eq_some_iff.mp h
      obtain ⟨hk, hm, hw, hr⟩ :=
        keepsObjects_destroyStates pool (s.setWorker w { s.worker w with pool := none })
      have hset : KeepsObjects s (s.setWorker w { s.worker w with pool := none }) := .of_eq rfl rfl
      refine ⟨.same ?_ hr.ge, .same (hset.trans hk) hm⟩
      intro v
      rw [hw]
      exact inFlight_setWorker (c := { s.worker w with pool := none }) rfl v
  | watch =>
      obtain ⟨-, rfl⟩ := watch_cases h
      exact ⟨.same (fun _ => rfl) le_rfl, .same (.of_eq rfl rfl) rfl⟩
  | refill out =>
      cases refill_cases h with
      | made hi hout ht => exact ht ▸ ⟨.same (fun _ => rfl) le_rfl, .same (.of_eq rfl rfl) rfl⟩
      | noState hi hout ht => exact ht ▸ ⟨.same (fun _ => rfl) le_rfl, .same (.of_eq rfl rfl) rfl⟩
      | leaks hi hout ht => exact ht ▸ ⟨.same (fun _ => rfl) le_rfl, .same (.of_eq rfl rfl) rfl⟩
  | bootstrap out =>
      cases bootstrap_cases h with
      | made hnone hout ht => exact ht ▸ ⟨.same (fun _ => rfl) le_rfl, .same (.of_eq rfl rfl) rfl⟩
      | noState hout ht => exact ht ▸ ⟨.same (fun _ => rfl) le_rfl, .same (.of_eq rfl rfl) rfl⟩
      | leaks hout ht => exact ht ▸ ⟨.same (fun _ => rfl) le_rfl, .same (.of_eq rfl rfl) rfl⟩
  | bootstrapEnd ok =>
      obtain ⟨x, hx, rfl⟩ := Option.map_eq_some_iff.mp h
      cases ok with
      | false => exact ⟨.same (fun _ => rfl) le_rfl, .same (.of_eq rfl rfl) rfl⟩
      | true =>
          have hset : KeepsObjects s { s with bootstrap := none } := .of_eq rfl rfl
          exact ⟨.same (fun _ => rfl) le_rfl,
            .same ((hset.trans (keepsObjects_deleteObjects _ x)).trans (.of_eq rfl rfl)) rfl⟩
  | getState w out =>
      obtain ⟨ho, hd, hm⟩ := getState_objects h
      exact ⟨getState_request h, .same (.of_eq ho hd) hm⟩
  | newObject w r =>
      obtain ⟨x, hx, rfl⟩ := Option.map_eq_some_iff.mp h
      obtain ⟨hk, hmem⟩ := newObject_keeps s x (some r)
      exact ⟨.same (fun _ => rfl) le_rfl, .made w r x rfl hk hx hmem rfl⟩
  | bootstrapObject =>
      obtain ⟨x, hx, rfl⟩ := Option.map_eq_some_iff.mp h
      exact ⟨.same (fun _ => rfl) le_rfl, .booted (newObject_keeps s x none).1 rfl⟩
  | endRequest w r freed => exact endRequest_request h
  | exit =>
      obtain rfl := exit_cases h
      obtain ⟨hk, hm, hw, hr⟩ := keepsObjects_destroyStates s.shared { s with shared := [] }
      have hset : KeepsObjects s { s with shared := [] } := .of_eq rfl rfl
      refine ⟨.same ?_ hr.ge, .same ((hset.trans hk).trans (.of_eq rfl rfl)) hm⟩
      intro v
      exact congrArg (fun f => (f v).inFlight) hw

/-! ## §6. No state is used twice. -/

/-- What holds in every state of every run. -/
structure ManagerInv (s : ManagerState W) : Prop where
  exclusive : s.area.Exclusive
  issued : ∀ x, s.area.Has x → x < s.created
  running : s.running.Exclusive
  begun : ∀ r, s.running.Has r → r < s.requests

theorem manager_inv_init (o : ManagerOptions) : ManagerInv (managerMachine W o).init where
  exclusive := by
    refine ⟨fun p => by cases p <;> exact List.nodup_nil, ?_⟩
    intro x p q hp
    cases p <;> cases hp
  issued := by
    intro x hx
    obtain ⟨p, hp⟩ := hx
    cases p <;> cases hp
  running := ⟨fun _ => List.nodup_nil, fun hp => by cases hp⟩
  begun := by
    intro r hr
    obtain ⟨w, hw⟩ := hr
    cases hw

omit [DecidableEq W] in
/-- The states stay apart, whatever a step does with them. -/
theorem area_step {s t : ManagerState W} {a : ManagerAction W} (h : ManagerInv s)
    (hchange : ManagerChange s t a) : t.area.Exclusive ∧ ∀ x, t.area.Has x → x < t.created := by
  cases hchange with
  | stay hc hr =>
      refine ⟨h.exclusive.reorder hr, ?_⟩
      intro x hx
      rw [hc]
      exact h.issued x ((Inventory.has_reorder hr).mp hx)
  | move p q xs hc hne hp hq hother =>
      refine ⟨h.exclusive.move hne hp hq hother, ?_⟩
      intro x hx
      rw [hc]
      exact h.issued x ((Inventory.has_move hp hq hother).mp hx)
  | store q hc hq hother =>
      -- the new state has a number that no state has
      have hnew : ¬ s.area.Has s.created := fun hx => absurd (h.issued _ hx) (lt_irrefl _)
      refine ⟨h.exclusive.store hnew hq hother, ?_⟩
      intro x hx
      rw [hc]
      rcases (Inventory.has_store hq hother).mp hx with rfl | hx
      · exact Nat.lt_succ_self _
      · exact Nat.lt_succ_of_lt (h.issued x hx)
  | lose p xs _ hc hp hother =>
      refine ⟨h.exclusive.drop hp hother, ?_⟩
      intro x hx
      exact lt_of_lt_of_le (h.issued x (Inventory.Has.of_drop hp hother hx)) hc

omit [DecidableEq W] in
/-- The requests stay apart. -/
theorem running_step {s t : ManagerState W} {a : ManagerAction W} (h : ManagerInv s)
    (hchange : RequestChange s t a) : t.running.Exclusive ∧ ∀ r, t.running.Has r → r < t.requests := by
  cases hchange with
  | same hin hreq =>
      have hsame : ∀ w, t.running w ~ s.running w := by
        intro w
        show (t.worker w).inFlight.map Prod.fst ~ _
        rw [hin w]
        exact .refl _
      refine ⟨h.running.reorder hsame, ?_⟩
      intro r hr
      exact lt_of_lt_of_le (h.begun r ((Inventory.has_reorder hsame).mp hr)) hreq
  | begin w x hw hv hreq =>
      have hnew : ¬ s.running.Has s.requests := fun hr => absurd (h.begun _ hr) (lt_irrefl _)
      have hq : t.running w ~ s.requests :: s.running w := by
        show (t.worker w).inFlight.map Prod.fst ~ _
        rw [hw]
        exact .refl _
      have hother : ∀ v, v ≠ w → t.running v ~ s.running v := by
        intro v hvw
        show (t.worker v).inFlight.map Prod.fst ~ _
        rw [hv v hvw]
        exact .refl _
      refine ⟨h.running.store hnew hq hother, ?_⟩
      intro r hr
      rw [hreq]
      rcases (Inventory.has_store hq hother).mp hr with rfl | hr
      · exact Nat.lt_succ_self _
      · exact Nat.lt_succ_of_lt (h.begun r hr)
  | ended w r freed x _ hx hw hv hreq _ =>
      -- the request that ends leaves, and no other
      have hp : s.running w ~ [r] ++ t.running w := by
        have hperm := (inFlight_perm (h.running.once w) hx).map Prod.fst
        show _ ~ [r] ++ (t.worker w).inFlight.map Prod.fst
        rw [hw]
        exact hperm
      have hother : ∀ v, v ≠ w → t.running v ~ s.running v := by
        intro v hvw
        show (t.worker v).inFlight.map Prod.fst ~ _
        rw [hv v hvw]
        exact .refl _
      refine ⟨h.running.drop hp hother, ?_⟩
      intro q hq
      rw [hreq]
      exact h.begun q (Inventory.Has.of_drop hp hother hq)

theorem manager_inv_step {o : ManagerOptions} {s t : ManagerState W} {a : ManagerAction W}
    (h : ManagerInv s) (ht : managerStep o s a = some t) : ManagerInv t := by
  obtain ⟨hexcl, hissued⟩ := area_step h (managerStep_change h.running ht)
  obtain ⟨hrun, hbegun⟩ := running_step h (managerStep_requests ht).1
  exact ⟨hexcl, hissued, hrun, hbegun⟩

theorem manager_inv_reach {o : ManagerOptions} {g : ManagerState W → ManagerAction W → Prop}
    {s : ManagerState W} (h : (managerMachine W o).ReachWhen g s) : ManagerInv s :=
  h.invariant (manager_inv_init o) (fun _ _ _ hs _ ht => manager_inv_step hs ht)

/-- Where a Lua state can be. -/
inductive Place (W : Type) where
  | shared
  | pool (w : W)
  | request (w : W) (r : RequestId)
  | bootstrap
  | destroyed

/-- The Lua state `x` is at a place. -/
def ManagerState.At (s : ManagerState W) (x : StateId) : Place W → Prop
  | .shared => x ∈ s.shared
  | .pool w => x ∈ (s.worker w).pool.getD []
  | .request w r => (r, x) ∈ (s.worker w).inFlight
  | .bootstrap => s.bootstrap = some x
  | .destroyed => x ∈ s.destroyed

/-- The area of a place. -/
def Place.area : Place W → Area W
  | .shared => .shared
  | .pool w | .request w _ => .worker w
  | .bootstrap => .bootstrap
  | .destroyed => .destroyed

omit [DecidableEq W] in
theorem ManagerState.At.mem_area {s : ManagerState W} {x : StateId} {p : Place W} (h : s.At x p) :
    x ∈ s.area p.area := by
  cases p with
  | shared | destroyed => exact h
  | pool w => exact List.mem_append_left _ h
  | request w r => exact List.mem_append_right _ (List.mem_map_of_mem (f := Prod.snd) h)
  | bootstrap =>
      show x ∈ s.bootstrap.toList
      rw [show s.bootstrap = some x from h]
      exact List.mem_singleton_self x

omit [DecidableEq W] in
theorem exists_at {s : ManagerState W} {x : StateId} (h : s.area.Has x) : ∃ p, s.At x p := by
  obtain ⟨a, ha⟩ := h
  cases a with
  | shared => exact ⟨.shared, ha⟩
  | destroyed => exact ⟨.destroyed, ha⟩
  | bootstrap => exact ⟨.bootstrap, Option.mem_toList.mp ha⟩
  | worker w =>
      rcases List.mem_append.mp ha with hp | hr
      · exact ⟨.pool w, hp⟩
      · obtain ⟨⟨r, y⟩, hmem, rfl⟩ := List.mem_map.mp hr
        exact ⟨.request w r, hmem⟩

omit [DecidableEq W] in
/-- **No Lua state is at two places.** -/
theorem ManagerInv.at_unique {s : ManagerState W} (h : ManagerInv s) {x : StateId} {p q : Place W}
    (hp : s.At x p) (hq : s.At x q) : p = q := by
  have harea : p.area = q.area := h.exclusive.apart hp.mem_area hq.mem_area
  have hworker : ∀ w, ((s.worker w).pool.getD [] ++ (s.worker w).inFlight.map Prod.snd).Nodup :=
    fun w => h.exclusive.once (.worker w)
  -- a pooled state is with no request, and no two requests share one
  have hpooled : ∀ w r, s.At x (.pool w) → s.At x (.request w r) → False := by
    intro w r hpool hreq
    exact (List.nodup_append.mp (hworker w)).2.2 x hpool x (List.mem_map_of_mem (f := Prod.snd) hreq) rfl
  have hheld : ∀ w r r', s.At x (.request w r) → s.At x (.request w r') → r = r' := by
    intro w r r' hr hr'
    have hnodup := (List.nodup_append.mp (hworker w)).2.1
    exact congrArg Prod.fst (List.inj_on_of_nodup_map hnodup hr hr' rfl)
  cases p with
  | shared => cases q <;> first | rfl | cases harea
  | bootstrap => cases q <;> first | rfl | cases harea
  | destroyed => cases q <;> first | rfl | cases harea
  | pool w =>
      cases q with
      | pool v => obtain rfl := Area.worker.inj harea; rfl
      | request v r => obtain rfl := Area.worker.inj harea; exact (hpooled w r hp hq).elim
      | shared | bootstrap | destroyed => cases harea
  | request w r =>
      cases q with
      | pool v => obtain rfl := Area.worker.inj harea; exact (hpooled w r hq hp).elim
      | request v r' =>
          obtain rfl := Area.worker.inj harea
          rw [hheld w r r' hp hq]
      | shared | bootstrap | destroyed => cases harea

/-! ## §7. The pools are bounded. -/

/-- **The three integer types of the watcher** do not disturb the difference. -/
theorem toCreate_eq {b : Int} {size : Nat} (hb : 0 ≤ b) (hb' : b < 2 ^ 31) (hsize : size < 2 ^ 31) :
    toCreate b size = b - size := by
  obtain ⟨n, rfl⟩ := Int.eq_ofNat_of_zero_le hb
  unfold toCreate
  rw [BitVec.toInt_setWidth, BitVec.toNat_sub, BitVec.toNat_ofNat, BitVec.toNat_ofInt, Int.bmod_def]
  push_cast
  omega

/-- A worker has no more states than it ever had requests in flight. -/
def StateWorker.Bounded (c : StateWorker) : Prop := c.states.length ≤ c.peak

omit [DecidableEq W] in
theorem StateWorker.length_states (c : StateWorker) :
    c.states.length = (c.pool.getD []).length + c.inFlight.length := by
  unfold StateWorker.states
  rw [List.length_append, List.length_map]

theorem bounded_setWorker {s : ManagerState W} (h : ∀ v, (s.worker v).Bounded) {w : W}
    {c : StateWorker} (hc : c.Bounded) (v : W) : ((s.setWorker w c).worker v).Bounded := by
  by_cases hv : v = w
  · subst hv
    rw [show (s.setWorker v c).worker v = c from Function.update_self ..]
    exact hc
  · rw [show (s.setWorker w c).worker v = s.worker v from Function.update_of_ne hv ..]
    exact h v

/-- A request begins with a state of its worker's pool, or the pool is empty. -/
theorem hold_bounded {s : ManagerState W} (h : ∀ v, (s.worker v).Bounded) {w : W} (x : StateId)
    (hw : (s.worker w).pool.getD [] = [] ∨ (s.worker w).states.length + 1 ≤ (s.worker w).peak) (v : W) :
    ((s.hold w x).worker v).Bounded := by
  refine bounded_setWorker h ?_ v
  show (StateWorker.states _).length ≤ max _ _
  rw [StateWorker.length_states, List.length_cons]
  -- without a pool every state is held by a request, which the peak counts
  rcases hw with hempty | hpeak
  · show ((s.worker w).pool.getD []).length + _ ≤ _
    rw [hempty, List.length_nil]
    omega
  · rw [StateWorker.length_states] at hpeak
    show ((s.worker w).pool.getD []).length + _ ≤ _
    omega

omit [DecidableEq W] in
theorem bounded_of_le {c d : StateWorker} (h : c.Bounded) (hpool : (d.pool.getD []).length ≤ (c.pool.getD []).length)
    (hin : d.inFlight.length ≤ c.inFlight.length) (hpeak : d.peak = c.peak) : d.Bounded := by
  unfold StateWorker.Bounded at h ⊢
  rw [StateWorker.length_states] at h ⊢
  omega

theorem getState_bounded {o : ManagerOptions} {s t : ManagerState W} {w : W} {out : CreateOutcome}
    (h : ∀ v, (s.worker v).Bounded) (ht : getStateStep o s w out = some t) (v : W) :
    (t.worker v).Bounded := by
  have htake : ∀ (m : ManagerState W) x, (∀ u, (m.worker u).Bounded) →
      ((m.worker w).pool.getD [] = [] ∨ (m.worker w).states.length + 1 ≤ (m.worker w).peak) →
      m.takeState o w x out = some t → (t.worker v).Bounded := by
    intro m x hm hw hm'
    rcases takeState_cases hm' with ⟨-, rfl⟩ | ⟨-, rfl⟩
    · exact hold_bounded hm x hw v
    · exact hm v
  cases getState_cases ht with
  | @pool init x hpool ht =>
      have hlen : (init ++ [x]).length + (s.worker w).inFlight.length ≤ (s.worker w).peak := by
        have hw := h w
        unfold StateWorker.Bounded at hw
        rw [StateWorker.length_states, hpool] at hw
        exact hw
      rw [List.length_append, List.length_singleton] at hlen
      have hpop : ({ s.worker w with pool := some init } : StateWorker).states.length + 1
          ≤ (s.worker w).peak := by
        rw [StateWorker.length_states]
        show init.length + (s.worker w).inFlight.length + 1 ≤ _
        omega
      refine htake _ x (bounded_setWorker h ?_) (.inr ?_) ht
      · exact Nat.le_of_succ_le hpop
      · rw [show (s.setWorker w { s.worker w with pool := some init }).worker w
          = { s.worker w with pool := some init } from Function.update_self ..]
        exact hpop
  | @shared init x hempty hshared ht => exact htake { s with shared := init } x h (.inl hempty) ht
  | created hempty hout ht =>
      subst ht
      exact hold_bounded (s := { s with created := s.created + 1 }) h _ (.inl hempty) v
  | noState hout ht => exact ht ▸ h v
  | leaks hout ht => exact ht ▸ h v

omit [DecidableEq W] in
/-- A request that ends was in flight. -/
theorem length_filter_stateOf {c : StateWorker} {r : RequestId} {x : StateId} (h : c.stateOf r = some x) :
    (c.inFlight.filter (fun p => p.1 ≠ r)).length < c.inFlight.length := by
  obtain ⟨p, hp, -⟩ := Option.map_eq_some_iff.mp h
  refine List.length_filter_lt_length_iff_exists.mpr ⟨p, List.mem_of_find?_eq_some hp, ?_⟩
  have := List.find?_some hp
  simpa using this

theorem endRequest_bounded {s t : ManagerState W} {w : W} {r : RequestId} {freed : Bool}
    (h : ∀ v, (s.worker v).Bounded) (ht : endRequestStep s w r freed = some t) (v : W) :
    (t.worker v).Bounded := by
  obtain ⟨x, hx, hcase⟩ := endRequest_cases ht
  have hlen : ((s.worker w).without r).inFlight.length < (s.worker w).inFlight.length :=
    length_filter_stateOf hx
  have hbound : ∀ u, ((s.setWorker w ((s.worker w).without r)).worker u).Bounded :=
    bounded_setWorker h (bounded_of_le (h w) (Nat.le_refl _) hlen.le rfl)
  cases hcase with
  | failed hfreed ht => exact ht ▸ hbound v
  | shared hfreed hpool ht => exact ht ▸ hbound v
  | @pooled pool hfreed hpool ht =>
      -- the state goes from the request to the pool
      rw [ht]
      refine bounded_setWorker
        (s := (s.setWorker w ((s.worker w).without r)).deleteObjects x) hbound ?_ v
      have hw := h w
      unfold StateWorker.Bounded at hw ⊢
      rw [StateWorker.length_states] at hw ⊢
      rw [hpool] at hw
      show (pool ++ [x]).length + ((s.worker w).without r).inFlight.length ≤ (s.worker w).peak
      rw [List.length_append, List.length_singleton]
      simp only [Option.getD_some] at hw
      omega

theorem bounded_step {o : ManagerOptions} {s t : ManagerState W} {a : ManagerAction W}
    (h : ∀ v, (s.worker v).Bounded) (ht : managerStep o s a = some t) (v : W) :
    (t.worker v).Bounded := by
  replace ht := runningStep_of_managerStep ht
  cases a with
  | openPool w =>
      obtain rfl := Option.some.inj ht
      exact bounded_setWorker h (bounded_of_le (h w) (d := { s.worker w with pool := some [] })
        (Nat.zero_le _) le_rfl rfl) v
  | closePool w =>
      obtain ⟨pool, hpool, rfl⟩ := Option.map_eq_some_iff.mp ht
      rw [(keepsObjects_destroyStates pool _).2.2.1]
      exact bounded_setWorker h (bounded_of_le (h w) (d := { s.worker w with pool := none })
        (Nat.zero_le _) le_rfl rfl) v
  | watch =>
      obtain ⟨-, rfl⟩ := watch_cases ht
      exact h v
  | refill out =>
      cases refill_cases ht with
      | made hi hout ht => exact ht ▸ h v
      | noState hi hout ht => exact ht ▸ h v
      | leaks hi hout ht => exact ht ▸ h v
  | bootstrap out =>
      cases bootstrap_cases ht with
      | made hnone hout ht => exact ht ▸ h v
      | noState hout ht => exact ht ▸ h v
      | leaks hout ht => exact ht ▸ h v
  | bootstrapEnd ok =>
      obtain ⟨x, -, rfl⟩ := Option.map_eq_some_iff.mp ht
      cases ok <;> exact h v
  | getState w out => exact getState_bounded h ht v
  | newObject w r =>
      obtain ⟨x, -, rfl⟩ := Option.map_eq_some_iff.mp ht
      exact h v
  | bootstrapObject =>
      obtain ⟨x, -, rfl⟩ := Option.map_eq_some_iff.mp ht
      exact h v
  | endRequest w r freed => exact endRequest_bounded h ht v
  | exit =>
      obtain rfl := exit_cases ht
      show (((ManagerState.destroyStates _ s.shared).worker v)).Bounded
      rw [(keepsObjects_destroyStates s.shared _).2.2.1]
      exact h v

/-- A request that gives its state back does so on a worker with a pool. -/
def OwnsPool (s : ManagerState W) : ManagerAction W → Prop
  | .endRequest w _ freed => freed = true → (s.worker w).pool.isSome = true
  | _ => True

/-- The shared pool and what the watcher is still going to make stay within
the buffer, as does what it has made since it read the size. -/
structure WatcherInv (o : ManagerOptions) (s : ManagerState W) : Prop where
  shared : (s.shared.length : Int) + max s.watcher.i 0 ≤ o.statebuffer
  refilled : (s.watcher.refilled : Int) + max s.watcher.i 0 ≤ max (o.statebuffer - s.watcher.sizeRead) 0

theorem getState_shared {o : ManagerOptions} {s t : ManagerState W} {w : W} {out : CreateOutcome}
    (h : getStateStep o s w out = some t) :
    t.shared.length ≤ s.shared.length ∧ t.watcher = s.watcher := by
  have htake : ∀ (m : ManagerState W) x, m.shared.length ≤ s.shared.length → m.watcher = s.watcher →
      m.takeState o w x out = some t → t.shared.length ≤ s.shared.length ∧ t.watcher = s.watcher := by
    intro m x hm hw ht
    rcases takeState_cases ht with ⟨-, rfl⟩ | ⟨-, rfl⟩
    · exact ⟨hm, hw⟩
    · exact ⟨hm, hw⟩
  cases getState_cases h with
  | pool hpool h => exact htake (s.setWorker w _) _ le_rfl rfl h
  | @shared init x hempty hshared h =>
      refine htake { s with shared := init } x ?_ rfl h
      rw [hshared, List.length_append]
      exact Nat.le_add_right _ _
  | created hempty hout ht => exact ht ▸ ⟨le_rfl, rfl⟩
  | noState hout ht => exact ht ▸ ⟨le_rfl, rfl⟩
  | leaks hout ht => exact ht ▸ ⟨le_rfl, rfl⟩

omit [DecidableEq W] in
theorem destroyStates_shared (xs : List StateId) (s : ManagerState W) :
    (s.destroyStates xs).shared = s.shared ∧ (s.destroyStates xs).watcher = s.watcher := by
  induction xs generalizing s with
  | nil => exact ⟨rfl, rfl⟩
  | cons x xs ih => exact ih (s.destroyState x)

theorem endRequest_shared {s t : ManagerState W} {w : W} {r : RequestId} {freed : Bool}
    (hpool : freed = true → (s.worker w).pool.isSome = true)
    (h : endRequestStep s w r freed = some t) : t.shared = s.shared ∧ t.watcher = s.watcher := by
  obtain ⟨x, -, hcase⟩ := endRequest_cases h
  cases hcase with
  | failed hfreed ht => exact ht ▸ ⟨rfl, rfl⟩
  | pooled hfreed hp ht => exact ht ▸ ⟨rfl, rfl⟩
  | shared hfreed hp ht =>
      have hsome := hpool hfreed
      rw [hp] at hsome
      cases hsome

omit [DecidableEq W] in
theorem WatcherInv.of_le {o : ManagerOptions} {s t : ManagerState W} (h : WatcherInv o s)
    (hs : t.shared.length ≤ s.shared.length) (hw : t.watcher = s.watcher) : WatcherInv o t := by
  obtain ⟨hshared, hrefilled⟩ := h
  refine ⟨?_, by rw [hw]; exact hrefilled⟩
  rw [hw]
  omega

theorem watcher_inv_step {o : ManagerOptions} (hb : 0 ≤ o.statebuffer) (hb' : o.statebuffer < 2 ^ 31)
    {s t : ManagerState W} {a : ManagerAction W} (h : WatcherInv o s) (hown : OwnsPool s a)
    (ht : managerStep o s a = some t) : WatcherInv o t := by
  replace ht := runningStep_of_managerStep ht
  cases a with
  | openPool w =>
      obtain rfl := Option.some.inj ht
      exact h.of_le le_rfl rfl
  | closePool w =>
      obtain ⟨pool, -, rfl⟩ := Option.map_eq_some_iff.mp ht
      obtain ⟨hs, hw⟩ := destroyStates_shared pool (s.setWorker w { s.worker w with pool := none })
      exact h.of_le (by rw [hs]; exact le_rfl) hw
  | watch =>
      obtain ⟨hi, rfl⟩ := watch_cases ht
      have hsize : (s.shared.length : Int) ≤ o.statebuffer := by
        have := h.shared
        omega
      -- the difference of the sizes is not disturbed by its types
      have hcreate : toCreate o.statebuffer s.shared.length = o.statebuffer - s.shared.length :=
        toCreate_eq hb hb' (by omega)
      constructor
      · show (s.shared.length : Int) + max (toCreate _ _) 0 ≤ _
        rw [hcreate]
        omega
      · show ((0 : Nat) : Int) + max (toCreate _ _) 0 ≤ max (o.statebuffer - s.shared.length) 0
        rw [hcreate]
        omega
  | refill out =>
      -- a loop that ends has nothing left to make
      have hstop : ∀ n, WatcherInv o { s with created := n, watcher := { s.watcher with i := 0 } } := by
        obtain ⟨hshared, hrefilled⟩ := h
        intro n
        constructor
        · show (s.shared.length : Int) + max 0 0 ≤ _
          omega
        · show (s.watcher.refilled : Int) + max 0 0 ≤ max (o.statebuffer - s.watcher.sizeRead) 0
          omega
      cases refill_cases ht with
      | made hi hout hmade =>
          obtain ⟨hshared, hrefilled⟩ := h
          subst hmade
          constructor
          · show ((s.shared ++ [s.created]).length : Int) + max (s.watcher.i - 1) 0 ≤ _
            rw [List.length_append, List.length_singleton]
            omega
          · show ((s.watcher.refilled + 1 : Nat) : Int) + max (s.watcher.i - 1) 0 ≤
              max (o.statebuffer - s.watcher.sizeRead) 0
            omega
      | noState hi hout ht => exact ht ▸ hstop s.created
      | leaks hi hout ht => exact ht ▸ hstop (s.created + 1)
  | bootstrap out =>
      cases bootstrap_cases ht with
      | made hnone hout ht => exact ht ▸ h.of_le le_rfl rfl
      | noState hout ht => exact ht ▸ h.of_le le_rfl rfl
      | leaks hout ht => exact ht ▸ h.of_le le_rfl rfl
  | bootstrapEnd ok =>
      obtain ⟨x, -, rfl⟩ := Option.map_eq_some_iff.mp ht
      cases ok <;> exact h.of_le le_rfl rfl
  | getState w out =>
      obtain ⟨hs, hw⟩ := getState_shared ht
      exact h.of_le hs hw
  | newObject w r =>
      obtain ⟨x, -, rfl⟩ := Option.map_eq_some_iff.mp ht
      exact h.of_le le_rfl rfl
  | bootstrapObject =>
      obtain ⟨x, -, rfl⟩ := Option.map_eq_some_iff.mp ht
      exact h.of_le le_rfl rfl
  | endRequest w r freed =>
      obtain ⟨hs, hw⟩ := endRequest_shared hown ht
      exact h.of_le (by rw [hs]) hw
  | exit =>
      obtain rfl := exit_cases ht
      obtain ⟨hs, hw⟩ := destroyStates_shared s.shared { s with shared := [] }
      refine h.of_le ?_ hw
      show (ManagerState.destroyStates _ s.shared).shared.length ≤ _
      rw [hs]
      exact Nat.zero_le _

/-- **EXCLUSIVE AND BOUNDED.**  In every run whose requests give their states
back on workers with a pool: a Lua state is never at two places; the states in
the pool of a worker and those of its requests are no more than it had
requests in flight at one time; the shared pool holds at most
`lua.statebuffer` states; and since the watcher has read the size of the pool
it has made at most the states that were missing then, which is what its
arithmetic on three types computes. -/
theorem states_exclusive_bounded (o : ManagerOptions) (hb : 0 ≤ o.statebuffer)
    (hb' : o.statebuffer < 2 ^ 31) {s : ManagerState W}
    (h : (managerMachine W o).ReachWhen OwnsPool s) :
    (∀ x p q, s.At x p → s.At x q → p = q) ∧
      (∀ w, ((s.worker w).pool.getD []).length + (s.worker w).inFlight.length ≤ (s.worker w).peak) ∧
      (s.shared.length : Int) ≤ o.statebuffer ∧
      (s.watcher.refilled : Int) ≤ max (o.statebuffer - s.watcher.sizeRead) 0 ∧
      ∀ size : Nat, size < 2 ^ 31 → toCreate o.statebuffer size = o.statebuffer - size := by
  have hinv := manager_inv_reach h
  have hbounded : ∀ w, (s.worker w).Bounded := by
    refine h.invariant (I := fun s => ∀ w, (s.worker w).Bounded) (fun _ => le_rfl) ?_
    intro s a t hs _ ht
    exact bounded_step hs ht
  have hwatcher : WatcherInv o s := by
    refine h.invariant ⟨?_, ?_⟩ (fun _ _ _ hs hg ht => watcher_inv_step hb hb' hs hg ht)
    · show ((0 : Nat) : Int) + max 0 0 ≤ o.statebuffer
      omega
    · show ((0 : Nat) : Int) + max 0 0 ≤ max (o.statebuffer - (0 : Nat)) 0
      omega
  refine ⟨fun x p q hp hq => hinv.at_unique hp hq, ?_, ?_, ?_, ?_⟩
  · intro w
    rw [← StateWorker.length_states]
    exact hbounded w
  · have := hwatcher.shared
    omega
  · have := hwatcher.refilled
    omega
  · exact fun size hsize => toCreate_eq hb hb' hsize

instance (s : ManagerState W) (a : ManagerAction W) : Decidable (OwnsPool s a) := by
  cases a <;> unfold OwnsPool <;> infer_instance

/-- The buffer of two states is filled while a request makes its own and
leaves it in the pool of its worker. -/
theorem states_bounded_refill :
    ∃ s, (managerMachine Unit { statebuffer := 2 }).ReachWhen OwnsPool s ∧
      (s.worker ()).pool = some [0] ∧ s.shared = [1, 2] ∧ (s.shared.length : Int) ≤ 2 := by
  obtain ⟨s, hs, hpool, hshared⟩ := Machine.exists_reachWhen_of_run
    (managerMachine Unit { statebuffer := 2 }) OwnsPool
    [.openPool (), .getState () .ok, .watch, .refill .ok, .endRequest () 0 true, .refill .ok]
    (fun s => (s.worker ()).pool = some [0] ∧ s.shared = [1, 2]) (by decide)
  exact ⟨s, hs, hpool, hshared,
    (states_exclusive_bounded { statebuffer := 2 } (by decide) (by decide) hs).2.2.1⟩

/-! ## §8. No state is lost. -/

/-- The request has begun and is not in flight any more. -/
def ManagerState.Ended (s : ManagerState W) (r : RequestId) : Prop :=
  r < s.requests ∧ ∀ w x, (r, x) ∉ (s.worker w).inFlight

/-- Every object of a request is deleted or belongs to the state the request
still works on. -/
def ObjectInv (s : ManagerState W) : Prop :=
  ∀ ob r, s.makers[ob]? = some (some r) →
    ob ∈ s.deleted ∨ ∃ w x, (r, x) ∈ (s.worker w).inFlight ∧ ob ∈ s.objects x

omit [DecidableEq W] in
/-- A step that loses no state keeps every state somewhere. -/
theorem complete_step {s t : ManagerState W} {a : ManagerAction W}
    (h : ∀ x < s.created, s.area.Has x) (hkeep : KeepsStates s a) (hchange : ManagerChange s t a) :
    ∀ x < t.created, t.area.Has x := by
  cases hchange with
  | stay hc hr =>
      intro x hx
      rw [hc] at hx
      exact (Inventory.has_reorder hr).mpr (h x hx)
  | move p q xs hc hne hp hq hother =>
      intro x hx
      rw [hc] at hx
      exact (Inventory.has_move hp hq hother).mpr (h x hx)
  | store q hc hq hother =>
      intro x hx
      rw [hc] at hx
      rcases Nat.lt_succ_iff_lt_or_eq.mp hx with hx | hx
      · exact (Inventory.has_store hq hother).mpr (.inr (h x hx))
      · exact (Inventory.has_store hq hother).mpr (.inl hx)
  | lose p xs hlost => exact absurd hkeep hlost

omit [DecidableEq W] in
theorem mem_of_stateOf {c : StateWorker} {r : RequestId} {x : StateId} (h : c.stateOf r = some x) :
    (r, x) ∈ c.inFlight := by
  obtain ⟨p, hp, rfl⟩ := Option.map_eq_some_iff.mp h
  have hr := List.find?_some hp
  have : p.1 = r := by simpa using hr
  subst this
  exact List.mem_of_find?_eq_some hp

omit [DecidableEq W] in
/-- A request in flight is so after the step, or it was the one that ended,
and its objects are deleted. -/
theorem inFlight_step {s t : ManagerState W} {a : ManagerAction W} (h : ManagerInv s)
    (hkeep : KeepsStates s a) (hchange : RequestChange s t a) {w : W} {r : RequestId} {x : StateId}
    (hr : (r, x) ∈ (s.worker w).inFlight) :
    (r, x) ∈ (t.worker w).inFlight ∨
      ((∃ v, a = .endRequest v r true) ∧ ∀ ob ∈ s.objects x, ob ∈ t.deleted) := by
  cases hchange with
  | same hin _ => exact .inl (by rw [hin]; exact hr)
  | begin v y hv hother _ =>
      left
      by_cases hw : w = v
      · subst hw
        rw [hv]
        exact List.mem_cons_of_mem _ hr
      · rw [hother w hw]
        exact hr
  | ended v q freed y ha hy hv hother _ hdel =>
      by_cases hw : w = v
      · subst hw
        by_cases hq : r = q
        · -- it is the same request, so it is the same state
          subst hq
          subst ha
          have hfreed : freed = true := hkeep
          subst hfreed
          have hxy : x = y :=
            congrArg Prod.snd (List.inj_on_of_nodup_map (h.running.once w) hr (mem_of_stateOf hy) rfl)
          subst hxy
          exact .inr ⟨⟨w, rfl⟩, hdel rfl⟩
        · left
          rw [hv]
          exact List.mem_filter.mpr ⟨hr, by simpa using hq⟩
      · left
        rw [hother w hw]
        exact hr

theorem object_inv_step {o : ManagerOptions} {s t : ManagerState W} {a : ManagerAction W}
    (hinv : ManagerInv s) (h : ObjectInv s) (hkeep : KeepsStates s a)
    (ht : managerStep o s a = some t) : ObjectInv t := by
  obtain ⟨hrequest, hobject⟩ := managerStep_requests ht
  -- the objects there were before
  have hold : KeepsObjects s t → ∀ ob r, s.makers[ob]? = some (some r) →
      ob ∈ t.deleted ∨ ∃ w x, (r, x) ∈ (t.worker w).inFlight ∧ ob ∈ t.objects x := by
    intro hk ob r hob
    rcases h ob r hob with hdel | ⟨w, x, hr, hx⟩
    · exact .inl (hk.deleted ob hdel)
    · rcases inFlight_step hinv hkeep hrequest hr with hstill | ⟨-, hended⟩
      · rcases hk.objects x ob hx with hx | hx
        · exact .inr ⟨w, x, hstill, hx⟩
        · exact .inl hx
      · exact .inl (hended ob hx)
  cases hobject with
  | same hk hm =>
      intro ob r hob
      rw [hm] at hob
      exact hold hk ob r hob
  | booted hk hm =>
      intro ob r hob
      rw [hm] at hob
      refine hold hk ob r ?_
      by_cases hlt : ob < s.makers.length
      · rw [List.getElem?_append_left hlt] at hob
        exact hob
      · rw [List.getElem?_append_right (Nat.le_of_not_lt hlt)] at hob
        cases hn : ob - s.makers.length with
        | zero => rw [hn] at hob; cases hob
        | succ n => rw [hn] at hob; cases hob
  | made w r' x ha hk hx hmem hm =>
      intro ob r hob
      rw [hm] at hob
      by_cases hlt : ob < s.makers.length
      · rw [List.getElem?_append_left hlt] at hob
        exact hold hk ob r hob
      · -- the new object belongs to the state of its request
        rw [List.getElem?_append_right (Nat.le_of_not_lt hlt)] at hob
        cases hn : ob - s.makers.length with
        | succ n => rw [hn] at hob; cases hob
        | zero =>
            rw [hn] at hob
            obtain rfl : r' = r := Option.some.inj (Option.some.inj hob)
            obtain rfl : ob = s.makers.length :=
              le_antisymm (Nat.le_of_sub_eq_zero hn) (Nat.le_of_not_lt hlt)
            rcases inFlight_step hinv hkeep hrequest (mem_of_stateOf hx) with hstill | ⟨⟨v, hv⟩, -⟩
            · exact .inr ⟨w, x, hstill, hmem⟩
            · rw [ha] at hv
              cases hv

/-- **NOTHING IS LOST**, in every run that loses no state at once: each Lua
state made so far is at exactly one place, and the objects of the requests
that have ended are deleted. -/
theorem states_conserved (o : ManagerOptions) {s : ManagerState W}
    (h : (managerMachine W o).ReachWhen KeepsStates s) :
    (∀ x < s.created, ∃! p, s.At x p) ∧
      ∀ ob r, s.makers[ob]? = some (some r) → s.Ended r → ob ∈ s.deleted := by
  have hinv := manager_inv_reach h
  have hcomplete : ∀ x < s.created, s.area.Has x := by
    refine h.invariant_of (I := fun s => ∀ x < s.created, s.area.Has x)
      (fun _ h => manager_inv_reach h) (fun x hx => absurd hx (Nat.not_lt_zero x)) ?_
    intro s a t hs hc hkeep ht
    exact complete_step hc hkeep (managerStep_change hs.running ht)
  have hobjects : ObjectInv s := by
    refine h.invariant_of (fun _ h => manager_inv_reach h) (fun ob r hob => by cases hob) ?_
    intro s a t hs ho hkeep ht
    exact object_inv_step hs ho hkeep ht
  constructor
  · intro x hx
    obtain ⟨p, hp⟩ := exists_at (hcomplete x hx)
    exact ⟨p, hp, fun q hq => hinv.at_unique hq hp⟩
  · intro ob r hob hended
    rcases hobjects ob r hob with hdel | ⟨w, x, hr, -⟩
    · exact hdel
    · exact absurd hr (hended.2 w x)

instance (s : ManagerState W) (a : ManagerAction W) : Decidable (KeepsStates s a) := by
  cases a <;> unfold KeepsStates <;> infer_instance

/-- A request with an object that comes to its normal end. -/
theorem states_conserved_freed :
    ∃ s, (managerMachine Unit {}).ReachWhen KeepsStates s ∧ (∃! p, s.At 0 p) ∧
      s.makers = [some 0] ∧ 0 ∈ s.deleted := by
  obtain ⟨s, hs, hc, hm, hin, hr⟩ := Machine.exists_reachWhen_of_run (managerMachine Unit {}) KeepsStates
    [.openPool (), .getState () .ok, .newObject () 0, .endRequest () 0 true]
    (fun s => s.created = 1 ∧ s.makers = [some 0] ∧ (s.worker ()).inFlight = [] ∧ s.requests = 1)
    (by decide)
  obtain ⟨hstates, hobjects⟩ := states_conserved {} hs
  refine ⟨s, hs, hstates 0 (by rw [hc]; decide), hm,
    hobjects 0 0 (by rw [hm]; rfl) ⟨by rw [hr]; decide, ?_⟩⟩
  intro w x hx
  rw [show s.worker w = s.worker () from rfl, hin] at hx
  cases hx

/-- **A REQUEST THAT FAILS LOSES ITS STATE**, and the objects it has made with it. -/
theorem failed_request_loses_state :
    ∃ s, (managerMachine Unit {}).Reach s ∧ s.created = 1 ∧ (¬ ∃ p, s.At 0 p) ∧
      s.makers[0]? = some (some 0) ∧ s.Ended 0 ∧ 0 ∉ s.deleted := by
  obtain ⟨s, hs, hc, hsh, hw, hb, hd, hm, hr, hdel⟩ := Machine.exists_reach_of_run (managerMachine Unit {})
    [.openPool (), .getState () .ok, .newObject () 0, .endRequest () 0 false]
    (fun s => s.created = 1 ∧ s.shared = [] ∧ s.worker () = { pool := some [], inFlight := [], peak := 1 } ∧
      s.bootstrap = none ∧ s.destroyed = [] ∧ s.makers = [some 0] ∧ s.requests = 1 ∧ s.deleted = [])
    (by decide)
  refine ⟨s, hs, hc, ?_, by rw [hm]; rfl, ⟨by rw [hr]; decide, ?_⟩, by rw [hdel]; exact List.not_mem_nil⟩
  · intro h
    obtain ⟨p, hp⟩ := h
    cases p with
    | shared => rw [ManagerState.At, hsh] at hp; cases hp
    | pool w => rw [ManagerState.At, show s.worker w = s.worker () from rfl, hw] at hp; cases hp
    | request w r => rw [ManagerState.At, show s.worker w = s.worker () from rfl, hw] at hp; cases hp
    | bootstrap => rw [ManagerState.At, hb] at hp; cases hp
    | destroyed => rw [ManagerState.At, hd] at hp; cases hp
  · intro w x hx
    rw [show s.worker w = s.worker () from rfl, hw] at hx
    cases hx

end Steps

end Petrel
