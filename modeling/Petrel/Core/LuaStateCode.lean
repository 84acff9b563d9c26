/-
  Petrel.Core.LuaStateCode — the libraries and the code in a Lua state.

  `create_state` opens the libraries registered at that moment, then loads the
  code strings added at that moment, and the state then waits in a pool.  The
  watcher thread makes states on its own clock, a request makes one when the
  pools are empty, and `register_lib` and `add_lua_code` may come at any time.
  The version in a state is not used: nobody looks at what a pooled state has
  loaded.

  The machine is the state manager with the contents of its states.

  Main results:
    * `code_inv_reach`  — what is loaded at each moment.
    * `code_refines_manager` — the machine refines the state manager.
    * `states_current`  — no request runs on an outdated state, as long as the
      registrations come before the states.
    * `watcher_was_first` — the run that breaks it otherwise.
-/

import Petrel.Core.LuaStateManager

namespace Petrel

open Framework

/-! ## §1. What is loaded. -/

/-- What `create_state` has loaded into a state so far. -/
inductive StateContent (Lib Code : Type) where
  | begun
  | opened (libs : List Lib)
  | complete (libs : List Lib) (code : List Code)
  deriving DecidableEq

section Content

variable {Lib Code : Type}

/-- The libraries were opened. -/
def StateContent.hasLibs : StateContent Lib Code → Bool
  | .begun => false
  | .opened _ | .complete _ _ => true

/-- The code was loaded. -/
def StateContent.hasCode : StateContent Lib Code → Bool
  | .complete _ _ => true
  | .begun | .opened _ => false

/-- Whatever was loaded has everything registered until now. -/
def StateContent.UpToDate (libs : List Lib) (code : List Code) : StateContent Lib Code → Prop
  | .begun => True
  | .opened l => libs ⊆ l
  | .complete l c => libs ⊆ l ∧ code ⊆ c

/-- Where a call of `get_state` is. -/
inductive CallPc where
  | checking                       -- before it looks into the pools
  | creating (x : StateId)         -- in `create_state`

/-- A call of `get_state`, with what was registered before it. -/
structure GetCall (Lib Code : Type) where
  libs : List Lib
  code : List Code
  pc : CallPc

/-- A state handed to a request. -/
structure HandOut (Lib Code : Type) where
  libs : List Lib                  -- registered before the call
  code : List Code
  content : StateContent Lib Code
  deriving DecidableEq

/-- The state has everything that was registered before the call. -/
def HandOut.Current (h : HandOut Lib Code) : Prop :=
  ∃ l c, h.content = .complete l c ∧ h.libs ⊆ l ∧ h.code ⊆ c

/-- The state is complete and has everything registered until now. -/
def StateContent.Ready (libs : List Lib) (code : List Code) (c : StateContent Lib Code) : Prop :=
  c.hasCode = true ∧ c.UpToDate libs code

theorem StateContent.Ready.current {c : StateContent Lib Code} {libs libs' : List Lib}
    {code code' : List Code} (h : c.Ready libs code) (hlibs : libs' ⊆ libs) (hcode : code' ⊆ code) :
    HandOut.Current ⟨libs', code', c⟩ := by
  obtain ⟨hhas, hup⟩ := h
  cases c with
  | begun => exact nomatch hhas
  | opened l => exact nomatch hhas
  | complete l c => exact ⟨l, c, rfl, List.Subset.trans hlibs hup.1, List.Subset.trans hcode hup.2⟩

theorem StateContent.upToDate_of_noLibs {c : StateContent Lib Code} (h : c.hasLibs = false)
    (libs : List Lib) (code : List Code) : c.UpToDate libs code := by
  cases c with
  | begun => trivial
  | opened l => exact nomatch h
  | complete l c => exact nomatch h

theorem StateContent.upToDate_of_noCode {c : StateContent Lib Code} {libs : List Lib}
    {code : List Code} (h : c.hasCode = false) (hup : c.UpToDate libs code) (code' : List Code) :
    c.UpToDate libs code' := by
  cases c with
  | begun => trivial
  | opened l => exact hup
  | complete l c => exact nomatch h

theorem StateContent.Ready.hasLibs {c : StateContent Lib Code} {libs : List Lib} {code : List Code}
    (h : c.Ready libs code) : c.hasLibs = true := by
  cases c with
  | begun => exact nomatch h.1
  | opened l => exact nomatch h.1
  | complete l c => rfl

end Content

/-- The state manager with the registered libraries and the added code, the
contents of the states, the `create_state` of the watcher, the calls of
`get_state`, and the history of the hand-outs. -/
structure CodeState (W Lib Code : Type) where
  manager : ManagerState W := {}
  libs : List Lib
  code : List Code := []                                  -- `m_code`
  content : StateId → StateContent Lib Code := fun _ => .begun
  creating : Option (StateContent Lib Code) := none
  call : W → Option (GetCall Lib Code) := fun _ => none
  handed : List (HandOut Lib Code) := []

inductive CodeAction (W Lib Code : Type) where
  | manager (a : ManagerAction W)
  | registerLib (lib : Lib)
  | addLuaCode (code : Code)
  | watcher                                               -- the next step of its `create_state`
  | call (w : W)                                          -- a request calls `get_state`
  | getState (w : W) (out : CreateOutcome)                -- and looks into the pools
  | create (w : W)                                        -- the next step of its `create_state`

/-- The thread of an action. -/
def ManagerAction.thread {W : Type} : ManagerAction W → Option W
  | .openPool w | .closePool w | .getState w _ | .newObject w _ | .endRequest w _ _ => some w
  | _ => none

/-- The actions that hand out no state and put no new state into a pool. -/
def ManagerAction.plain {W : Type} : ManagerAction W → Bool
  | .getState _ _ | .refill .ok => false
  | _ => true

/-! ## §2. The steps. -/

section Steps

variable {W Lib Code : Type} [DecidableEq W]

def CodeState.setCall (s : CodeState W Lib Code) (w : W) (c : Option (GetCall Lib Code)) :
    CodeState W Lib Code :=
  { s with call := Function.update s.call w c }

def CodeState.setContent (s : CodeState W Lib Code) (x : StateId) (c : StateContent Lib Code) :
    CodeState W Lib Code :=
  { s with content := Function.update s.content x c }

/-- `get_state` returns the state `x`. -/
def CodeState.handOut (s : CodeState W Lib Code) (w : W) (c : GetCall Lib Code) (x : StateId) :
    CodeState W Lib Code :=
  { s.setCall w none with handed := ⟨c.libs, c.code, s.content x⟩ :: s.handed }

/-- One step of `create_state`: the libraries that are registered now, and
then the code that was added by now. -/
def CodeState.load (s : CodeState W Lib Code) : StateContent Lib Code → StateContent Lib Code
  | .begun => .opened s.libs
  | .opened l => .complete l s.code
  | .complete l c => .complete l c

/-- The `create_state` of the watcher, and the push to the pool. -/
def watcherStep (o : ManagerOptions) (s : CodeState W Lib Code) : Option (CodeState W Lib Code) :=
  match s.creating with
  | none => if s.manager.watcher.i > 0 then some { s with creating := some .begun } else none
  -- `create_state` has returned: push to the shared pool
  | some (.complete l c) =>
      (managerStep o s.manager (.refill .ok)).map fun m =>
        { s.setContent s.manager.created (.complete l c) with manager := m, creating := none }
  | some c => some { s with creating := some (s.load c) }

/-- `get_state` takes a state from a pool, or begins with `create_state`. -/
def lookStep (o : ManagerOptions) (s : CodeState W Lib Code) (w : W) (c : GetCall Lib Code)
    (out : CreateOutcome) : Option (CodeState W Lib Code) :=
  (managerStep o s.manager (.getState w out)).map fun m =>
    let t := { s with manager := m }
    match out, (m.worker w).inFlight.head? with
    | .ok, some (_, x) =>
        -- nothing was created, so the state comes from a pool
        if m.created = s.manager.created then t.handOut w c x
        else (t.setContent x .begun).setCall w (some { c with pc := .creating x })
    | _, _ => t.setCall w none

/-- The thread of an action is not in a call of `get_state`. -/
def CodeState.free (s : CodeState W Lib Code) (a : ManagerAction W) : Bool :=
  match a.thread with
  | some w => (s.call w).isNone
  | none => true

def codeStep (o : ManagerOptions) (s : CodeState W Lib Code) :
    CodeAction W Lib Code → Option (CodeState W Lib Code)
  | .manager a =>
      if a.plain && s.free a then
        (managerStep o s.manager a).map fun m =>
          { s with
            manager := m
            creating :=
              match a with
              | .refill _ => none                  -- an exception
              | _ => s.creating }
      else none
  | .registerLib lib => some { s with libs := s.libs ++ [lib] }
  | .addLuaCode code => some { s with code := s.code ++ [code] }
  | .watcher => watcherStep o s
  -- what the request may rely on is what was there before the call
  | .call w =>
      match s.call w with
      | none => some (s.setCall w (some ⟨s.libs, s.code, .checking⟩))
      | some _ => none
  | .getState w out =>
      match s.call w with
      | some ⟨l, c, .checking⟩ => lookStep o s w ⟨l, c, .checking⟩ out
      | _ => none
  | .create w =>
      match s.call w with
      | some ⟨l, c, .creating x⟩ =>
          -- `create_state` returns when the code is loaded
          if (s.content x).hasCode then some (s.handOut w ⟨l, c, .creating x⟩ x)
          else some (s.setContent x (s.load (s.content x)))
      | _ => none

/-- The state manager, with the builtin libraries registered. -/
def codeMachine (W : Type) [DecidableEq W] {Lib : Type} (Code : Type) (o : ManagerOptions)
    (builtin : List Lib) : Machine (CodeState W Lib Code) (CodeAction W Lib Code) where
  init := { libs := builtin }
  step := codeStep o

/-- Nothing that may still be handed out meets `p`: no state in a pool or with
a request, and not the one that the watcher is making. -/
def CodeState.NoneLoaded (s : CodeState W Lib Code) (p : StateContent Lib Code → Bool) : Prop :=
  (∀ x ∈ s.manager.shared, p (s.content x) = false) ∧
    (∀ w, ∀ x ∈ (s.manager.worker w).states, p (s.content x) = false) ∧
    ∀ c ∈ s.creating, p c = false

/-- The condition on a step: a library is registered before any state that may
still be handed out has opened its libraries, and a code string is added before
any has loaded its code. -/
def RegistersFirst (s : CodeState W Lib Code) : CodeAction W Lib Code → Prop
  | .registerLib _ => s.NoneLoaded StateContent.hasLibs
  | .addLuaCode _ => s.NoneLoaded StateContent.hasCode
  | _ => True

/-! ## §3. What the manager's steps do with the pools. -/

omit [DecidableEq W] in
theorem destroyStates_worker (xs : List StateId) (s : ManagerState W) :
    (s.destroyStates xs).worker = s.worker := by
  induction xs generalizing s with
  | nil => rfl
  | cons x xs ih => exact ih (s.destroyState x)

/-- A plain step brings no state to a worker, and to the shared pool only one
of its own thread. -/
structure PlainChange (s t : ManagerState W) (a : ManagerAction W) : Prop where
  other : ∀ v, a.thread ≠ some v → t.worker v = s.worker v
  states : ∀ v, (t.worker v).states ⊆ (s.worker v).states
  shared : ∀ x ∈ t.shared,
    x ∈ s.shared ∨ ∃ w, a.thread = some w ∧ x ∈ (s.worker w).states

omit [DecidableEq W] in
theorem PlainChange.of_eq {s t : ManagerState W} {a : ManagerAction W} (hw : t.worker = s.worker)
    (hs : t.shared ⊆ s.shared) : PlainChange s t a := by
  refine ⟨fun v _ => by rw [hw], fun v => by rw [hw]; exact List.Subset.refl _, ?_⟩
  exact fun x hx => .inl (hs hx)

theorem PlainChange.setWorker {s : ManagerState W} {a : ManagerAction W} {w : W} {c : StateWorker}
    (hthread : a.thread = some w) (hc : c.states ⊆ (s.worker w).states) :
    PlainChange s (s.setWorker w c) a := by
  refine ⟨?_, ?_, fun x hx => .inl hx⟩
  · intro v hv
    have hne : v ≠ w := fun h => hv (by rw [h]; exact hthread)
    exact Function.update_of_ne hne ..
  · intro v
    show (Function.update s.worker w c v).states ⊆ _
    by_cases hv : v = w
    · subst hv
      rw [Function.update_self]
      exact hc
    · rw [Function.update_of_ne hv]
      exact List.Subset.refl _

theorem endRequest_plain {s t : ManagerState W} {w : W} {r : RequestId} {freed : Bool}
    (h : endRequestStep s w r freed = some t) : PlainChange s t (.endRequest w r freed) := by
  obtain ⟨x, hx, hcase⟩ := endRequest_cases h
  have hxs : x ∈ (s.worker w).states :=
    List.mem_append_right _ (List.mem_map_of_mem (f := Prod.snd) (mem_of_stateOf hx))
  -- the worker keeps its pool and loses one request
  have hless : ((s.worker w).without r).states ⊆ (s.worker w).states := by
    intro y hy
    rcases List.mem_append.mp hy with hy | hy
    · exact List.mem_append_left _ hy
    · exact List.mem_append_right _ (List.map_subset _ List.filter_sublist.subset hy)
  cases hcase with
  | failed hfreed ht => exact ht ▸ .setWorker rfl hless
  | shared hfreed hpool ht =>
      have hstay := PlainChange.setWorker (s := s) (a := .endRequest w r freed) rfl hless
      subst ht
      refine ⟨hstay.other, hstay.states, ?_⟩
      intro y hy
      rcases List.mem_append.mp hy with hy | hy
      · exact .inl hy
      · exact .inr ⟨w, rfl, List.mem_singleton.mp hy ▸ hxs⟩
  | @pooled pool hfreed hpool ht =>
      -- the state goes to the local pool of the worker that had it
      have hback : StateWorker.states { (s.worker w).without r with pool := some (pool ++ [x]) } ⊆
          (s.worker w).states := by
        intro y hy
        have hy' : y ∈ (pool ++ [x]) ++ ((s.worker w).without r).inFlight.map Prod.snd := hy
        rcases List.mem_append.mp hy' with hy' | hy'
        · rcases List.mem_append.mp hy' with hy' | hy'
          · refine List.mem_append_left _ ?_
            rw [hpool]
            exact hy'
          · exact List.mem_singleton.mp hy' ▸ hxs
        · exact hless (List.mem_append_right _ hy')
      have hstay := PlainChange.setWorker (s := s) (a := .endRequest w r freed) rfl hback
      subst ht
      refine ⟨?_, ?_, fun y hy => .inl hy⟩
      · intro v hv
        have hne : v ≠ w := fun h => hv (by rw [h]; rfl)
        show Function.update (Function.update s.worker w _) w _ v = _
        rw [Function.update_of_ne hne, Function.update_of_ne hne]
      · intro v
        show (Function.update (Function.update s.worker w _) w _ v).states ⊆ _
        rw [Function.update_idem]
        exact hstay.states v

theorem plainStep_change {o : ManagerOptions} {s t : ManagerState W} {a : ManagerAction W}
    (hplain : a.plain = true) (h : managerStep o s a = some t) : PlainChange s t a := by
  have hrun := runningStep_of_managerStep h
  cases a with
  | openPool w =>
      refine Option.some.inj hrun ▸ .setWorker rfl ?_
      exact List.subset_append_right _ _
  | closePool w =>
      obtain ⟨pool, hpool, rfl⟩ := Option.map_eq_some_iff.mp hrun
      -- the states of the pool are destroyed, and nobody gets them
      have hstay : PlainChange s (s.setWorker w { s.worker w with pool := none }) (.closePool w) :=
        .setWorker rfl (List.subset_append_right _ _)
      have hworker := destroyStates_worker pool (s.setWorker w { s.worker w with pool := none })
      have hshared := (destroyStates_shared pool (s.setWorker w { s.worker w with pool := none })).1
      refine ⟨?_, ?_, ?_⟩
      · intro v hv
        rw [hworker]
        exact hstay.other v hv
      · intro v
        rw [hworker]
        exact hstay.states v
      · intro x hx
        rw [hshared] at hx
        exact .inl hx
  | watch =>
      obtain ⟨-, rfl⟩ := watch_cases hrun
      exact .of_eq rfl (List.Subset.refl _)
  | refill out =>
      cases refill_cases hrun with
      | made hi hout ht =>
          rw [hout] at hplain
          exact nomatch hplain
      | noState hi hout ht => exact ht ▸ .of_eq rfl (List.Subset.refl _)
      | leaks hi hout ht => exact ht ▸ .of_eq rfl (List.Subset.refl _)
  | bootstrap out =>
      cases bootstrap_cases hrun with
      | made hnone hout ht => exact ht ▸ .of_eq rfl (List.Subset.refl _)
      | noState hout ht => exact ht ▸ .of_eq rfl (List.Subset.refl _)
      | leaks hout ht => exact ht ▸ .of_eq rfl (List.Subset.refl _)
  | bootstrapEnd ok =>
      obtain ⟨x, -, rfl⟩ := Option.map_eq_some_iff.mp hrun
      cases ok <;> exact .of_eq rfl (List.Subset.refl _)
  | getState w out => exact nomatch hplain
  | newObject w r =>
      obtain ⟨x, -, rfl⟩ := Option.map_eq_some_iff.mp hrun
      exact .of_eq rfl (List.Subset.refl _)
  | bootstrapObject =>
      obtain ⟨x, -, rfl⟩ := Option.map_eq_some_iff.mp hrun
      exact .of_eq rfl (List.Subset.refl _)
  | endRequest w r freed => exact endRequest_plain hrun
  | exit =>
      obtain rfl := exit_cases hrun
      refine .of_eq (destroyStates_worker s.shared { s with shared := [] }) ?_
      show (ManagerState.destroyStates { s with shared := [] } s.shared).shared ⊆ s.shared
      rw [(destroyStates_shared s.shared { s with shared := [] }).1]
      exact List.nil_subset _

/-- What `get_state` does with the pools: a request holds a state of one of
them or a new one, and without a state they lose one at most. -/
structure GetChange (s t : ManagerState W) (w : W) (out : CreateOutcome) : Prop where
  shared : t.shared ⊆ s.shared
  other : ∀ v, v ≠ w → t.worker v = s.worker v
  pool : (t.worker w).pool.getD [] ⊆ (s.worker w).pool.getD []
  failed : out ≠ .ok → (t.worker w).inFlight = (s.worker w).inFlight
  held : out = .ok → ∃ r x, (t.worker w).inFlight = (r, x) :: (s.worker w).inFlight ∧
    (t.created = s.created ∧ (x ∈ s.shared ∨ x ∈ (s.worker w).states) ∨
      t.created ≠ s.created ∧ x = s.created)

omit [DecidableEq W] in
/-- The states of the worker behind a call: those it had, and the one that the
request holds. -/
theorem GetChange.states {s t : ManagerState W} {w : W} {out : CreateOutcome} (h : GetChange s t w out)
    (held : List (RequestId × StateId)) (hin : (t.worker w).inFlight = held ++ (s.worker w).inFlight)
    {x : StateId} (hx : x ∈ (t.worker w).states) :
    x ∈ (s.worker w).states ∨ x ∈ held.map Prod.snd := by
  unfold StateWorker.states at hx
  rw [hin, List.map_append] at hx
  rcases List.mem_append.mp hx with hx | hx
  · exact .inl (List.mem_append_left _ (h.pool hx))
  · rcases List.mem_append.mp hx with hx | hx
    · exact .inr hx
    · exact .inl (List.mem_append_right _ hx)

theorem hold_worker_self (s : ManagerState W) (w : W) (x : StateId) :
    ((s.hold w x).worker w).pool = (s.worker w).pool ∧
      ((s.hold w x).worker w).inFlight = (s.requests, x) :: (s.worker w).inFlight := by
  have hw : (s.hold w x).worker w = _ := Function.update_self ..
  rw [hw]
  exact ⟨rfl, rfl⟩

/-- `get_state` with the state `x` that `m` lacks. -/
theorem takeState_get {o : ManagerOptions} {s m t : ManagerState W} {w : W} {x : StateId}
    {out : CreateOutcome} (hshared : m.shared ⊆ s.shared)
    (hother : ∀ v, v ≠ w → m.worker v = s.worker v)
    (hpool : (m.worker w).pool.getD [] ⊆ (s.worker w).pool.getD [])
    (hheld : (m.worker w).inFlight = (s.worker w).inFlight) (hcreated : m.created = s.created)
    (hx : x ∈ s.shared ∨ x ∈ (s.worker w).states) (h : m.takeState o w x out = some t) :
    GetChange s t w out := by
  rcases takeState_cases h with ⟨rfl, rfl⟩ | ⟨rfl, rfl⟩
  · obtain ⟨hp, hi⟩ := hold_worker_self m w x
    refine ⟨hshared, ?_, ?_, fun h => absurd rfl h, fun _ => ?_⟩
    · intro v hv
      rw [← hother v hv]
      exact Function.update_of_ne hv ..
    · rw [hp]
      exact hpool
    · rw [hi, hheld]
      exact ⟨_, x, rfl, .inl ⟨hcreated, hx⟩⟩
  · exact ⟨hshared, hother, hpool, fun _ => hheld, (fun h => nomatch h)⟩

theorem getState_pools {o : ManagerOptions} {s t : ManagerState W} {w : W} {out : CreateOutcome}
    (h : managerStep o s (.getState w out) = some t) : GetChange s t w out := by
  have hget : getStateStep o s w out = some t := runningStep_of_managerStep h
  cases getState_cases hget with
  | @pool init x hpool htake =>
      have hx : x ∈ (s.worker w).states := by
        refine List.mem_append_left _ ?_
        rw [hpool]
        exact List.mem_append_right _ (List.mem_singleton_self x)
      refine takeState_get (m := s.setWorker w _) (List.Subset.refl _) ?_ ?_ ?_ rfl (.inr hx) htake
      · exact fun v hv => Function.update_of_ne hv ..
      · show ((Function.update s.worker w _ w).pool).getD [] ⊆ _
        rw [Function.update_self, hpool]
        exact List.subset_append_left init [x]
      · show (Function.update s.worker w _ w).inFlight = _
        rw [Function.update_self]
  | @shared init x hempty hshared htake =>
      have hinit : init ⊆ s.shared := hshared ▸ List.subset_append_left init [x]
      have hx : x ∈ s.shared := hshared ▸ List.mem_append_right init (List.mem_singleton_self x)
      exact takeState_get (m := { s with shared := init }) hinit (fun _ _ => rfl)
        (List.Subset.refl _) rfl rfl (.inl hx) htake
  | created hempty hout ht =>
      -- `create_state` in the request
      subst hout ht
      obtain ⟨hp, hi⟩ := hold_worker_self { s with created := s.created + 1 } w s.created
      refine ⟨List.Subset.refl _, fun v hv => Function.update_of_ne hv .., ?_,
        fun h => absurd rfl h, fun _ => ?_⟩
      · rw [hp]
        exact List.Subset.refl _
      · rw [hi]
        exact ⟨_, s.created, rfl, .inr ⟨Nat.succ_ne_self _, rfl⟩⟩
  | noState hout ht =>
      subst hout ht
      exact ⟨List.Subset.refl _, fun _ _ => rfl, List.Subset.refl _, fun _ => rfl,
        (fun h => nomatch h)⟩
  | leaks hout ht =>
      subst hout ht
      exact ⟨List.Subset.refl _, fun _ _ => rfl, List.Subset.refl _, fun _ => rfl,
        (fun h => nomatch h)⟩

/-! ## §4. The invariant. -/

/-- A state in a pool is ready, and one at a worker is unless the worker is
still making it. -/
structure CodeInv (s : CodeState W Lib Code) : Prop where
  manager : ManagerInv s.manager
  shared : ∀ x ∈ s.manager.shared, (s.content x).Ready s.libs s.code
  worker : ∀ w, ∀ x ∈ (s.manager.worker w).states, (s.content x).Ready s.libs s.code ∨
    ∃ l c, s.call w = some ⟨l, c, .creating x⟩
  creating : ∀ c ∈ s.creating, c.UpToDate s.libs s.code
  call : ∀ w l c pc, s.call w = some ⟨l, c, pc⟩ → l ⊆ s.libs ∧ c ⊆ s.code
  making : ∀ w l c x, s.call w = some ⟨l, c, .creating x⟩ →
    x ∈ (s.manager.worker w).states ∧ (s.content x).UpToDate s.libs s.code
  handed : ∀ h ∈ s.handed, h.Current

omit [DecidableEq W] in
theorem upToDate_load {s : CodeState W Lib Code} {c : StateContent Lib Code}
    (h : c.UpToDate s.libs s.code) : (s.load c).UpToDate s.libs s.code := by
  cases c with
  | begun => exact List.Subset.refl _
  | opened l => exact ⟨h, List.Subset.refl _⟩
  | complete l c => exact h

omit [DecidableEq W] in
/-- A worker that is not making a state has ready ones only. -/
theorem CodeInv.ready {s : CodeState W Lib Code} (h : CodeInv s) {w : W} {x : StateId}
    (hx : x ∈ (s.manager.worker w).states)
    (hcall : ∀ l c, s.call w ≠ some ⟨l, c, .creating x⟩) : (s.content x).Ready s.libs s.code := by
  rcases h.worker w x hx with hready | ⟨l, c, hc⟩
  · exact hready
  · exact absurd hc (hcall l c)

omit [DecidableEq W] in
theorem CodeInv.ready_idle {s : CodeState W Lib Code} (h : CodeInv s) {w : W}
    (hcall : s.call w = none) :
    ∀ x ∈ (s.manager.worker w).states, (s.content x).Ready s.libs s.code :=
  fun _ hx => h.ready hx (fun l c hc => by rw [hcall] at hc; exact nomatch hc)

omit [DecidableEq W] in
theorem CodeInv.ready_checking {s : CodeState W Lib Code} (h : CodeInv s) {w : W} {l : List Lib}
    {c : List Code} (hcall : s.call w = some ⟨l, c, .checking⟩) :
    ∀ x ∈ (s.manager.worker w).states, (s.content x).Ready s.libs s.code :=
  fun _ hx => h.ready hx (fun l c hc => by rw [hcall] at hc; exact nomatch hc)

omit [DecidableEq W] in
/-- What makes a state ready is asked of none of the states: they stay up to
date with more libraries and more code. -/
theorem CodeInv.register {s : CodeState W Lib Code} (h : CodeInv s)
    {p : StateContent Lib Code → Bool} {libs : List Lib} {code : List Code} (hlibs : s.libs ⊆ libs)
    (hcode : s.code ⊆ code) (hnone : s.NoneLoaded p)
    (hready : ∀ c : StateContent Lib Code, c.Ready s.libs s.code → p c = true)
    (hup : ∀ c : StateContent Lib Code, p c = false → c.UpToDate s.libs s.code →
      c.UpToDate libs code) : CodeInv { s with libs := libs, code := code } := by
  obtain ⟨hshared, hworker, hcreating⟩ := hnone
  -- a ready state would meet `p`, so no such state is ready
  have hfalse : ∀ {c : StateContent Lib Code}, p c = false → ¬ c.Ready s.libs s.code := by
    intro c hp hc
    rw [hready c hc] at hp
    exact nomatch hp
  refine ⟨h.manager, ?_, ?_, ?_, ?_, ?_, h.handed⟩
  · exact fun x hx => absurd (h.shared x hx) (hfalse (hshared x hx))
  · exact fun w x hx => (h.worker w x hx).imp_left (fun hc => absurd hc (hfalse (hworker w x hx)))
  · exact fun c hc => hup c (hcreating c hc) (h.creating c hc)
  · intro w l c pc hc
    obtain ⟨hl, hcode'⟩ := h.call w l c pc hc
    exact ⟨List.Subset.trans hl hlibs, List.Subset.trans hcode' hcode⟩
  · intro w l c x hc
    obtain ⟨hx, hup'⟩ := h.making w l c x hc
    exact ⟨hx, hup _ (hworker w x hx) hup'⟩

omit [DecidableEq W] in
theorem CodeInv.registerLib {s : CodeState W Lib Code} (h : CodeInv s) (lib : Lib)
    (hnone : s.NoneLoaded StateContent.hasLibs) : CodeInv { s with libs := s.libs ++ [lib] } :=
  h.register (List.subset_append_left _ _) (List.Subset.refl _) hnone (fun _ hc => hc.hasLibs)
    (fun _ hc _ => StateContent.upToDate_of_noLibs hc _ _)

omit [DecidableEq W] in
theorem CodeInv.addLuaCode {s : CodeState W Lib Code} (h : CodeInv s) (code : Code)
    (hnone : s.NoneLoaded StateContent.hasCode) : CodeInv { s with code := s.code ++ [code] } :=
  h.register (List.Subset.refl _) (List.subset_append_left _ _) hnone (fun _ hc => hc.1)
    (fun _ hc hup => StateContent.upToDate_of_noCode hc hup _)

/-- A plain step of the manager. -/
theorem CodeInv.plain {o : ManagerOptions} {s : CodeState W Lib Code} {m : ManagerState W}
    {a : ManagerAction W} (h : CodeInv s) (hplain : a.plain = true) (hfree : s.free a = true)
    (hm : managerStep o s.manager a = some m) {creating : Option (StateContent Lib Code)}
    (hcreating : ∀ c ∈ creating, c ∈ s.creating) :
    CodeInv { s with manager := m, creating := creating } := by
  have hchange := plainStep_change hplain hm
  -- the worker that the manager moves is in no call
  have hnocall : ∀ w, a.thread = some w → s.call w = none := by
    intro w hw
    unfold CodeState.free at hfree
    rw [hw] at hfree
    exact Option.isNone_iff_eq_none.mp hfree
  refine ⟨manager_inv_step h.manager hm, ?_, ?_, fun c hc => h.creating c (hcreating c hc), h.call,
    ?_, h.handed⟩
  · intro x hx
    rcases hchange.shared x hx with hx | ⟨w, hw, hx⟩
    · exact h.shared x hx
    · exact h.ready_idle (hnocall w hw) x hx
  · exact fun w x hx => h.worker w x (hchange.states w hx)
  · intro w l c x hc
    obtain ⟨hx, hup⟩ := h.making w l c x hc
    refine ⟨?_, hup⟩
    show x ∈ (m.worker w).states
    rw [hchange.other w (fun hw => by rw [hnocall w hw] at hc; exact nomatch hc)]
    exact hx

omit [DecidableEq W] in
theorem setContent_of_lt (s : CodeState W Lib Code) {x y : StateId} (h : x < y)
    (c : StateContent Lib Code) : (s.setContent y c).content x = s.content x :=
  Function.update_of_ne (Nat.ne_of_lt h) ..

omit [DecidableEq W] in
/-- A state that exists is not the new one. -/
theorem CodeInv.content_old {s : CodeState W Lib Code} (h : CodeInv s) (c : StateContent Lib Code)
    {x : StateId} (hx : s.manager.area.Has x) :
    (s.setContent s.manager.created c).content x = s.content x :=
  setContent_of_lt s (h.manager.issued x hx) c

/-- The state that the watcher has made goes to the shared pool. -/
theorem CodeInv.push {o : ManagerOptions} {s : CodeState W Lib Code} {m : ManagerState W}
    (h : CodeInv s) {l : List Lib} {c : List Code} (hc : s.creating = some (.complete l c))
    (hm : managerStep o s.manager (.refill .ok) = some m) :
    CodeInv { s.setContent s.manager.created (.complete l c) with
      manager := m, creating := none } := by
  have hready : (StateContent.complete l c).Ready s.libs s.code := ⟨rfl, h.creating _ hc⟩
  obtain ⟨hshared, hworker⟩ : m.shared = s.manager.shared ++ [s.manager.created] ∧
      m.worker = s.manager.worker := by
    have hrefill : refillStep s.manager .ok = some m := runningStep_of_managerStep hm
    cases refill_cases hrefill with
    | made hi hout ht => exact ht ▸ ⟨rfl, rfl⟩
    | noState hi hout ht => exact nomatch hout
    | leaks hi hout ht => exact nomatch hout
  refine ⟨manager_inv_step h.manager hm, ?_, ?_, (fun _ hc => nomatch hc), h.call, ?_, h.handed⟩
  · intro x hx
    -- the new state, or one that was in the pool before
    have hx' : x ∈ s.manager.shared ++ [s.manager.created] := hshared ▸ hx
    show ((s.setContent _ _).content x).Ready s.libs s.code
    rcases List.mem_append.mp hx' with hx' | hx'
    · rw [h.content_old _ ⟨.shared, hx'⟩]
      exact h.shared x hx'
    · rw [List.mem_singleton.mp hx']
      show (Function.update s.content _ _ _).Ready s.libs s.code
      rw [Function.update_self]
      exact hready
  · intro w x hx
    have hx' : x ∈ (s.manager.worker w).states := hworker ▸ hx
    show ((s.setContent _ _).content x).Ready s.libs s.code ∨ _
    rw [h.content_old _ ⟨.worker w, hx'⟩]
    exact h.worker w x hx'
  · intro w l' c' x hcall
    obtain ⟨hx, hup⟩ := h.making w l' c' x hcall
    refine ⟨?_, ?_⟩
    · show x ∈ (m.worker w).states
      rw [hworker]
      exact hx
    · show ((s.setContent _ _).content x).UpToDate s.libs s.code
      rw [h.content_old _ ⟨.worker w, hx⟩]
      exact hup

theorem setCall_apply (s : CodeState W Lib Code) (w v : W) (c : Option (GetCall Lib Code)) :
    (s.setCall w c).call v = if v = w then c else s.call v := by
  show Function.update s.call w c v = _
  rw [Function.update_apply]

/-- A worker whose states are ready ends its call, or begins one. -/
theorem CodeInv.setCall {s : CodeState W Lib Code} (h : CodeInv s) {w : W}
    (hready : ∀ x ∈ (s.manager.worker w).states, (s.content x).Ready s.libs s.code)
    {c : Option (GetCall Lib Code)}
    (hc : ∀ d ∈ c, d.libs ⊆ s.libs ∧ d.code ⊆ s.code ∧ d.pc = .checking) :
    CodeInv (s.setCall w c) := by
  refine ⟨h.manager, h.shared, ?_, h.creating, ?_, ?_, h.handed⟩
  · intro v x hx
    by_cases hv : v = w
    · exact .inl (hready x (hv ▸ hx))
    · show _ ∨ ∃ l d, (s.setCall w c).call v = _
      rw [setCall_apply, if_neg hv]
      exact h.worker v x hx
  · intro v l d pc hd
    rw [setCall_apply] at hd
    split at hd
    · obtain ⟨hl, hcode, -⟩ := hc _ hd
      exact ⟨hl, hcode⟩
    · exact h.call v l d pc hd
  · intro v l d x hd
    rw [setCall_apply] at hd
    split at hd
    · exact nomatch (hc _ hd).2.2
    · exact h.making v l d x hd

theorem CodeInv.endCall {s : CodeState W Lib Code} (h : CodeInv s) {w : W}
    (hready : ∀ x ∈ (s.manager.worker w).states, (s.content x).Ready s.libs s.code) :
    CodeInv (s.setCall w none) :=
  h.setCall hready (fun _ hd => nomatch hd)

/-- A request gets a ready state. -/
theorem CodeInv.handOut {s : CodeState W Lib Code} (h : CodeInv s) {w : W} {c : GetCall Lib Code}
    {x : StateId} (hready : ∀ y ∈ (s.manager.worker w).states, (s.content y).Ready s.libs s.code)
    (hx : x ∈ (s.manager.worker w).states) (hlibs : c.libs ⊆ s.libs) (hcode : c.code ⊆ s.code) :
    CodeInv (s.handOut w c x) := by
  have hend := h.endCall hready
  refine ⟨hend.manager, hend.shared, hend.worker, hend.creating, hend.call, hend.making, ?_⟩
  intro g hg
  rcases List.mem_cons.mp hg with rfl | hg
  · exact (hready x hx).current hlibs hcode
  · exact h.handed g hg

/-- `get_state` with a state of a pool or without one: no state is new. -/
theorem CodeInv.taken {o : ManagerOptions} {s : CodeState W Lib Code} {m : ManagerState W} {w : W}
    {out : CreateOutcome} (h : CodeInv s) {l : List Lib} {c : List Code}
    (hcall : s.call w = some ⟨l, c, .checking⟩)
    (hm : managerStep o s.manager (.getState w out) = some m)
    (hold : ∀ x ∈ (m.worker w).states,
      x ∈ s.manager.shared ∨ x ∈ (s.manager.worker w).states) :
    CodeInv { s with manager := m } ∧
      ∀ x ∈ (m.worker w).states, (s.content x).Ready s.libs s.code := by
  have hchange := getState_pools hm
  have hready : ∀ x ∈ (m.worker w).states, (s.content x).Ready s.libs s.code := by
    intro x hx
    rcases hold x hx with hx | hx
    · exact h.shared x hx
    · exact h.ready_checking hcall x hx
  refine ⟨⟨manager_inv_step h.manager hm, fun x hx => h.shared x (hchange.shared hx), ?_, h.creating,
    h.call, ?_, h.handed⟩, hready⟩
  · intro v x hx
    by_cases hv : v = w
    · exact .inl (hready x (hv ▸ hx))
    · have hx' : x ∈ (s.manager.worker v).states := by
        rw [← hchange.other v hv]
        exact hx
      exact h.worker v x hx'
  · intro v l' c' x hc
    -- this worker's call is not making a state
    have hv : v ≠ w := by
      rintro rfl
      rw [hcall] at hc
      exact nomatch hc
    obtain ⟨hx, hup⟩ := h.making v l' c' x hc
    refine ⟨?_, hup⟩
    show x ∈ (m.worker v).states
    rw [hchange.other v hv]
    exact hx

/-- `get_state` begins with `create_state`. -/
theorem CodeInv.begin {o : ManagerOptions} {s : CodeState W Lib Code} {m : ManagerState W} {w : W}
    (h : CodeInv s) {l : List Lib} {c : List Code} (hcall : s.call w = some ⟨l, c, .checking⟩)
    (hm : managerStep o s.manager (.getState w .ok) = some m) {r : RequestId}
    (hin : (m.worker w).inFlight = (r, s.manager.created) :: (s.manager.worker w).inFlight) :
    CodeInv (({ s with manager := m }.setContent s.manager.created .begun).setCall w
      (some ⟨l, c, .creating s.manager.created⟩)) := by
  have hchange := getState_pools hm
  refine ⟨manager_inv_step h.manager hm, ?_, ?_, h.creating, ?_, ?_, h.handed⟩
  · intro x hx
    have hx' := hchange.shared hx
    show ((s.setContent _ _).content x).Ready s.libs s.code
    rw [h.content_old _ ⟨.shared, hx'⟩]
    exact h.shared x hx'
  · intro v x hx
    show ((s.setContent _ _).content x).Ready s.libs s.code ∨
      ∃ l' c', (s.setCall w (some ⟨l, c, .creating s.manager.created⟩)).call v = _
    rw [setCall_apply]
    by_cases hv : v = w
    · subst hv
      rw [if_pos rfl]
      -- the new state is the one that this call is making
      rcases hchange.states [(r, s.manager.created)] hin hx with hx' | hx'
      · refine .inl ?_
        rw [h.content_old _ ⟨.worker v, hx'⟩]
        exact h.ready_checking hcall x hx'
      · obtain rfl := List.mem_singleton.mp hx'
        exact .inr ⟨l, c, rfl⟩
    · rw [if_neg hv]
      have hx' : x ∈ (s.manager.worker v).states := by
        rw [← hchange.other v hv]
        exact hx
      rw [h.content_old _ ⟨.worker v, hx'⟩]
      exact h.worker v x hx'
  · intro v l' c' pc hc
    rw [setCall_apply] at hc
    split at hc
    · obtain ⟨rfl, rfl, -⟩ := GetCall.mk.inj (Option.some.inj hc)
      exact h.call w _ _ _ hcall
    · exact h.call v l' c' pc hc
  · intro v l' c' x hc
    rw [setCall_apply] at hc
    by_cases hv : v = w
    · subst hv
      rw [if_pos rfl] at hc
      obtain ⟨-, -, hpc⟩ := GetCall.mk.inj (Option.some.inj hc)
      obtain rfl := CallPc.creating.inj hpc
      refine ⟨?_, ?_⟩
      · show _ ∈ (m.worker v).states
        refine List.mem_append_right _ ?_
        rw [hin]
        exact List.mem_cons_self
      · show (Function.update s.content _ _ _).UpToDate s.libs s.code
        rw [Function.update_self]
        trivial
    · rw [if_neg hv] at hc
      obtain ⟨hx, hup⟩ := h.making v l' c' x hc
      refine ⟨?_, ?_⟩
      · show x ∈ (m.worker v).states
        rw [hchange.other v hv]
        exact hx
      · show ((s.setContent _ _).content x).UpToDate s.libs s.code
        rw [h.content_old _ ⟨.worker v, hx⟩]
        exact hup

theorem CodeInv.look {o : ManagerOptions} {s t : CodeState W Lib Code} {w : W} {out : CreateOutcome}
    (h : CodeInv s) {l : List Lib} {c : List Code} (hcall : s.call w = some ⟨l, c, .checking⟩)
    (ht : lookStep o s w ⟨l, c, .checking⟩ out = some t) : CodeInv t := by
  obtain ⟨m, hm, rfl⟩ := Option.map_eq_some_iff.mp ht
  have hchange := getState_pools hm
  by_cases hout : out = .ok
  · subst hout
    obtain ⟨r, x, hin, hx⟩ := hchange.held rfl
    simp only [hin, List.head?_cons]
    rcases hx with ⟨hcreated, hx⟩ | ⟨hcreated, rfl⟩
    · -- a state of a pool
      rw [if_pos hcreated]
      have hold : ∀ y ∈ (m.worker w).states,
          y ∈ s.manager.shared ∨ y ∈ (s.manager.worker w).states := by
        intro y hy
        rcases hchange.states [(r, x)] hin hy with hy' | hy'
        · exact .inr hy'
        · exact List.mem_singleton.mp hy' ▸ hx
      obtain ⟨hinv, hready⟩ := h.taken hcall hm hold
      have hmem : x ∈ (m.worker w).states := by
        refine List.mem_append_right _ ?_
        rw [hin]
        exact List.mem_cons_self
      obtain ⟨hl, hc⟩ := h.call w l c _ hcall
      exact hinv.handOut hready hmem hl hc
    · rw [if_neg hcreated]
      exact h.begin hcall hm hin
  · -- without a state: nothing to hand out, and the call ends
    have hin := hchange.failed hout
    have hold : ∀ y ∈ (m.worker w).states,
        y ∈ s.manager.shared ∨ y ∈ (s.manager.worker w).states := by
      intro y hy
      rcases hchange.states [] hin hy with hy' | hy'
      · exact .inr hy'
      · exact nomatch hy'
    obtain ⟨hinv, hready⟩ := h.taken hcall hm hold
    have hend := hinv.endCall hready
    cases out with
    | ok => exact absurd rfl hout
    | noState => exact hend
    | leaks => exact hend

omit [DecidableEq W] in
/-- A request goes on with its `create_state`. -/
theorem CodeInv.create {s : CodeState W Lib Code} {w : W} (h : CodeInv s) {l : List Lib}
    {c : List Code} {x : StateId} (hcall : s.call w = some ⟨l, c, .creating x⟩)
    (hhas : (s.content x).hasCode = false) :
    CodeInv (s.setContent x (s.load (s.content x))) := by
  have hloaded := upToDate_load (h.making w l c x hcall).2
  -- nobody else has the state: it is not ready
  have hready : ∀ y, (s.content y).Ready s.libs s.code →
      ((s.setContent x (s.load (s.content x))).content y).Ready s.libs s.code := by
    intro y hy
    have hne : y ≠ x := by
      rintro rfl
      have := hy.1
      rw [hhas] at this
      exact nomatch this
    show (Function.update s.content x _ y).Ready s.libs s.code
    rw [Function.update_of_ne hne]
    exact hy
  refine ⟨h.manager, fun y hy => hready y (h.shared y hy), ?_, h.creating, h.call, ?_, h.handed⟩
  · exact fun v y hy => (h.worker v y hy).imp_left (hready y)
  · intro v l' c' y hc
    obtain ⟨hy, hup⟩ := h.making v l' c' y hc
    refine ⟨hy, ?_⟩
    show (Function.update s.content x _ y).UpToDate s.libs s.code
    by_cases hne : y = x
    · subst hne
      rw [Function.update_self]
      exact hloaded
    · rw [Function.update_of_ne hne]
      exact hup

/-- `create_state` has returned to the request. -/
theorem CodeInv.created {s : CodeState W Lib Code} {w : W} (h : CodeInv s) {l : List Lib}
    {c : List Code} {x : StateId} (hcall : s.call w = some ⟨l, c, .creating x⟩)
    (hhas : (s.content x).hasCode = true) : CodeInv (s.handOut w ⟨l, c, .creating x⟩ x) := by
  obtain ⟨hx, hup⟩ := h.making w l c x hcall
  obtain ⟨hl, hc⟩ := h.call w l c _ hcall
  refine h.handOut ?_ hx hl hc
  intro y hy
  rcases h.worker w y hy with hready | ⟨l', c', hmaking⟩
  · exact hready
  · rw [hcall] at hmaking
    obtain ⟨-, -, hpc⟩ := GetCall.mk.inj (Option.some.inj hmaking)
    obtain rfl := CallPc.creating.inj hpc
    exact ⟨hhas, hup⟩

/-- A request calls `get_state`. -/
theorem CodeInv.beginCall {s : CodeState W Lib Code} {w : W} (h : CodeInv s)
    (hcall : s.call w = none) : CodeInv (s.setCall w (some ⟨s.libs, s.code, .checking⟩)) := by
  refine h.setCall (h.ready_idle hcall) ?_
  intro d hd
  obtain rfl := Option.some.inj hd
  exact ⟨List.Subset.refl _, List.Subset.refl _, rfl⟩

theorem CodeInv.watcher {o : ManagerOptions} {s t : CodeState W Lib Code} (h : CodeInv s)
    (ht : watcherStep o s = some t) : CodeInv t := by
  have hload : ∀ c, c.UpToDate s.libs s.code → CodeInv { s with creating := some c } := by
    intro c hc
    refine ⟨h.manager, h.shared, h.worker, ?_, h.call, h.making, h.handed⟩
    intro d hd
    exact Option.some.inj hd ▸ hc
  unfold watcherStep at ht
  cases hcreating : s.creating with
  | none =>
      simp only [hcreating] at ht
      split at ht
      · exact Option.some.inj ht ▸ hload .begun trivial
      · exact nomatch ht
  | some c =>
      have hup := h.creating c hcreating
      cases c with
      | begun =>
          simp only [hcreating] at ht
          exact Option.some.inj ht ▸ hload _ (upToDate_load hup)
      | opened l =>
          simp only [hcreating] at ht
          exact Option.some.inj ht ▸ hload _ (upToDate_load hup)
      | complete l c =>
          simp only [hcreating] at ht
          obtain ⟨m, hm, rfl⟩ := Option.map_eq_some_iff.mp ht
          exact h.push hcreating hm

theorem code_inv_step {o : ManagerOptions} {s t : CodeState W Lib Code}
    {a : CodeAction W Lib Code} (h : CodeInv s) (hguard : RegistersFirst s a)
    (ht : codeStep o s a = some t) : CodeInv t := by
  cases a with
  | manager a =>
      unfold codeStep at ht
      dsimp only at ht
      split at ht
      · rename_i hcond
        -- the exception of a `create_state` of the watcher drops what it made
        obtain ⟨hplain, hfree⟩ := Bool.and_eq_true_iff.mp hcond
        obtain ⟨m, hm, rfl⟩ := Option.map_eq_some_iff.mp ht
        refine h.plain hplain hfree hm ?_
        intro c hc
        split at hc
        · exact nomatch hc
        · exact hc
      · exact nomatch ht
  | registerLib lib => exact Option.some.inj ht ▸ h.registerLib lib hguard
  | addLuaCode code => exact Option.some.inj ht ▸ h.addLuaCode code hguard
  | watcher => exact h.watcher ht
  | call w =>
      unfold codeStep at ht
      dsimp only at ht
      split at ht
      · rename_i hcall
        exact Option.some.inj ht ▸ h.beginCall hcall
      · exact nomatch ht
  | getState w out =>
      unfold codeStep at ht
      dsimp only at ht
      split at ht
      · rename_i hcall
        exact h.look hcall ht
      · exact nomatch ht
  | create w =>
      unfold codeStep at ht
      dsimp only at ht
      split at ht
      · rename_i hcall
        split at ht
        · rename_i hhas
          exact Option.some.inj ht ▸ h.created hcall hhas
        · rename_i hhas
          exact Option.some.inj ht ▸ h.create hcall (Bool.eq_false_iff.mpr hhas)
      · exact nomatch ht

theorem code_inv_reach {o : ManagerOptions} {builtin : List Lib} {s : CodeState W Lib Code}
    (h : (codeMachine W Code o builtin).ReachWhen RegistersFirst s) : CodeInv s := by
  refine h.invariant ?_ (fun s a t hs hg ht => code_inv_step hs hg ht)
  refine ⟨manager_inv_init o, ?_, ?_, (fun _ hc => nomatch hc), (fun _ _ _ _ hc => nomatch hc),
    (fun _ _ _ _ hc => nomatch hc), ?_⟩
  · exact fun x hx => (List.not_mem_nil hx).elim
  · exact fun w x hx => (List.not_mem_nil hx).elim
  · exact fun x hx => (List.not_mem_nil hx).elim

/-! ## §5. The states are those of the manager. -/

/-- A step of the state manager, or one that it does not see. -/
def ManagerAnswers (o : ManagerOptions) (m m' : ManagerState W) : Prop :=
  m' = m ∨ ∃ b, managerStep o m b = some m'

/-- The watcher comes to the manager with the state that it has made. -/
theorem watcherStep_manager {o : ManagerOptions} {s t : CodeState W Lib Code}
    (h : watcherStep o s = some t) : ManagerAnswers o s.manager t.manager := by
  unfold watcherStep at h
  cases hcreating : s.creating with
  | none =>
      simp only [hcreating] at h
      split at h
      · exact .inl (Option.some.inj h ▸ rfl)
      · exact nomatch h
  | some c =>
      cases c with
      | begun | opened l =>
          simp only [hcreating] at h
          exact .inl (Option.some.inj h ▸ rfl)
      | complete l c =>
          simp only [hcreating] at h
          obtain ⟨m, hm, rfl⟩ := Option.map_eq_some_iff.mp h
          exact .inr ⟨.refill .ok, hm⟩

/-- `get_state` is one step of the manager, whatever it begins. -/
theorem lookStep_manager {o : ManagerOptions} {s t : CodeState W Lib Code} {w : W}
    {c : GetCall Lib Code} {out : CreateOutcome} (h : lookStep o s w c out = some t) :
    ManagerAnswers o s.manager t.manager := by
  obtain ⟨m, hm, rfl⟩ := Option.map_eq_some_iff.mp h
  refine .inr ⟨.getState w out, ?_⟩
  rw [hm]
  dsimp only
  split
  · split <;> rfl
  · rfl

theorem codeStep_manager {o : ManagerOptions} {s t : CodeState W Lib Code}
    {a : CodeAction W Lib Code} (h : codeStep o s a = some t) :
    ManagerAnswers o s.manager t.manager := by
  cases a with
  | manager a =>
      unfold codeStep at h
      dsimp only at h
      split at h
      · obtain ⟨m, hm, rfl⟩ := Option.map_eq_some_iff.mp h
        exact .inr ⟨a, hm⟩
      · exact nomatch h
  | registerLib lib => exact .inl (Option.some.inj h ▸ rfl)
  | addLuaCode code => exact .inl (Option.some.inj h ▸ rfl)
  | watcher => exact watcherStep_manager h
  | call w =>
      unfold codeStep at h
      dsimp only at h
      split at h
      · exact .inl (Option.some.inj h ▸ rfl)
      · exact nomatch h
  | getState w out =>
      unfold codeStep at h
      dsimp only at h
      split at h
      · exact lookStep_manager h
      · exact nomatch h
  | create w =>
      unfold codeStep at h
      dsimp only at h
      split at h
      · split at h
        · exact .inl (Option.some.inj h ▸ rfl)
        · exact .inl (Option.some.inj h ▸ rfl)
      · exact nomatch h

/-- **The machine refines the state manager**: what the contents add is not
seen by the pools. -/
theorem code_refines_manager (o : ManagerOptions) (builtin : List Lib) :
    Machine.Refines (codeMachine W Code o builtin) (managerMachine W o) (fun _ _ => True)
      (fun s m => m = s.manager) where
  init := rfl
  step := by
    rintro s t a _ - rfl - ht
    rcases codeStep_manager ht with hm | ⟨b, hb⟩
    · exact ⟨[], s.manager, rfl, hm.symm⟩
    · refine ⟨[b], t.manager, ?_, rfl⟩
      show (managerStep o s.manager b).bind some = some t.manager
      rw [hb]
      rfl

/-- No Lua state is at two places while the states are made in steps and the
registrations come in between. -/
theorem code_at_unique {o : ManagerOptions} {builtin : List Lib} {s : CodeState W Lib Code}
    (h : (codeMachine W Code o builtin).Reach s) {x : StateId} {p q : Place W}
    (hp : s.manager.At x p) (hq : s.manager.At x q) : p = q := by
  obtain ⟨m, hm, rfl⟩ := (code_refines_manager o builtin).reach h
  exact (manager_inv_reach hm).at_unique hp hq

/-! ## §6. Requests run on current states. -/

/-- **REQUESTS NEVER RUN ON AN OUTDATED STATE**, in every run in which each
registration finds no state that may still be handed out and has already loaded
what it adds to: every state that `get_state` returned had every library and
every code string that was there before the call. -/
theorem states_current (o : ManagerOptions) (builtin : List Lib) (s : CodeState W Lib Code)
    (h : (codeMachine W Code o builtin).ReachWhen RegistersFirst s) :
    ∀ g ∈ s.handed, g.Current :=
  (code_inv_reach h).handed

instance [Fintype W] (s : CodeState W Lib Code) :
    (a : CodeAction W Lib Code) → Decidable (RegistersFirst s a)
  | .registerLib _ => inferInstanceAs (Decidable (_ ∧ _ ∧ _))
  | .addLuaCode _ => inferInstanceAs (Decidable (_ ∧ _ ∧ _))
  | .manager _ | .watcher | .call _ | .getState _ _ | .create _ => inferInstanceAs (Decidable True)

end Steps

/-- One worker, with numbers for libraries and code. -/
def oneWorker : Machine (CodeState Unit Nat Nat) (CodeAction Unit Nat Nat) :=
  codeMachine Unit Nat {} [0]

/-- The watcher makes a state, and a request gets it. -/
def madeRun (between : List (CodeAction Unit Nat Nat)) : List (CodeAction Unit Nat Nat) :=
  [.manager .watch, .watcher, .watcher, .watcher, .watcher] ++ between ++
    [.call (), .getState () .ok]

/-- The bootstrap is faster than the watcher. -/
theorem states_current_registered :
    ∃ s, oneWorker.ReachWhen RegistersFirst s ∧
      s.handed = [⟨[0, 7], [3], .complete [0, 7] [3]⟩] ∧ ∀ g ∈ s.handed, g.Current := by
  obtain ⟨s, hs, hhanded⟩ := oneWorker.exists_reachWhen_of_run RegistersFirst
    (.registerLib 7 :: .addLuaCode 3 :: madeRun [])
    (fun s => s.handed = [⟨[0, 7], [3], .complete [0, 7] [3]⟩]) (by decide +kernel)
  exact ⟨s, hs, hhanded, states_current {} [0] s hs⟩

/-- **The watcher is faster than the bootstrap**: it makes a state, the library
is registered, and the next request runs without it. -/
theorem watcher_was_first :
    ∃ s, oneWorker.Reach s ∧ s.handed = [⟨[0, 7], [], .complete [0] []⟩] ∧
      ¬ ∀ g ∈ s.handed, g.Current := by
  obtain ⟨s, hs, hhanded⟩ := oneWorker.exists_reach_of_run (madeRun [.registerLib 7])
    (fun s => s.handed = [⟨[0, 7], [], .complete [0] []⟩]) (by decide +kernel)
  refine ⟨s, hs, hhanded, ?_⟩
  intro hall
  obtain ⟨l, c, hcontent, hlibs, -⟩ := hall ⟨[0, 7], [], .complete [0] []⟩ (by
    rw [hhanded]
    exact List.mem_singleton_self _)
  obtain ⟨rfl, rfl⟩ := StateContent.complete.inj hcontent
  exact absurd (hlibs (show 7 ∈ [0, 7] by decide)) (by decide)

end Petrel
