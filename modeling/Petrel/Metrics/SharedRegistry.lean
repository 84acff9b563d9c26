/-
  Petrel.Metrics.SharedRegistry — the maps of the registry under several threads.

  `register_metric` and `get_metric` are called by any thread; the registry
  thread walks over `m_metrics` and pops from `m_new_metrics`.  No lock guards
  the two, so that a write of a call and an access of another thread may meet:
  a race, behind which nothing is known.  Between its lookup and its insertion
  a call does not touch the maps, and two calls for one name may both insert.

  Main results:
    * `served_call`, `served_take` — without a race, every object is taken by
      the registry thread once or waits in the queue.
    * `lone_register` — a call that no other one meets is `registerMetric`.
-/

import Petrel.Metrics.Registry

namespace Petrel

/-! ## §1. The calls. -/

/-- Where a call of the registry is. -/
inductive RegistryPc where
  | finding                              -- reads `m_metrics`
  | missed                               -- `register_metric` has found nothing
  | inserting                            -- writes `m_metrics` and `m_new_metrics`
  | returned (metric : Option MetricId)
  deriving DecidableEq

/-- A call that has begun. -/
structure OpenCall where
  call : RegistryCall
  pc : RegistryPc := .finding

/-- What the registry thread does with the maps. -/
inductive ThreadAccess where
  | none
  | popping    -- from the test of `m_new_metrics` to the pop
  | walking    -- the loops over `m_metrics` for the log and for graphite
  deriving DecidableEq

/-- The maps with the calls, in the order in which they began.  `taken` are the
objects popped from the queue. -/
structure SharedRegistry where
  registry : Registry := {}
  calls : List OpenCall := []
  thread : ThreadAccess := .none
  taken : List MetricId := []
  raced : Bool := false

/-- What the calling threads do; the calls are numbered. -/
inductive CallAction where
  | enter (call : RegistryCall)
  | found (i : Nat)       -- the lookup is done
  | insert (i : Nat)      -- the insertion begins
  | inserted (i : Nat)

/-! ## §2. The steps. -/

/-- `register_metric` behind its lookup. -/
def Registry.addMetric (r : Registry) (T : MetricKind) (name : Bytes) : Registry :=
  { metrics := Function.update r.metrics name (some r.next)
    newMetrics := r.newMetrics ++ [r.next]
    kind := Function.update r.kind r.next T
    next := r.next + 1 }

namespace SharedRegistry

/-- A call is writing. -/
def writing (s : SharedRegistry) : Bool := s.calls.any (fun c => c.pc = .inserting)

/-- A call is reading. -/
def reading (s : SharedRegistry) : Bool := s.calls.any (fun c => c.pc = .finding)

def setPc (s : SharedRegistry) (i : Nat) (c : RegistryCall) (pc : RegistryPc) : SharedRegistry :=
  { s with calls := s.calls.set i ⟨c, pc⟩ }

/-- Undefined behaviour: nothing is known of the maps any more. -/
def race (s : SharedRegistry) : SharedRegistry := { s with registry := {}, raced := true }

/-- What the lookup of a call comes back with. -/
def afterFind (r : Registry) : RegistryCall → RegistryPc
  | .register T name =>
      match r.getMetric T name with
      | some id => .returned (some id)
      | none => .missed
  | .get T name => .returned (r.getMetric T name)

/-- A step of a calling thread. -/
def callStep (s : SharedRegistry) : CallAction → Option SharedRegistry
  | .enter call =>
      if s.writing then some s.race else some { s with calls := s.calls ++ [⟨call, .finding⟩] }
  | .found i =>
      match s.calls[i]? with
      | some ⟨call, .finding⟩ => some (s.setPc i call (afterFind s.registry call))
      | _ => none
  | .insert i =>
      match s.calls[i]? with
      | some ⟨call, .missed⟩ =>
          if s.writing || s.reading || s.thread ≠ .none then some s.race
          else some (s.setPc i call .inserting)
      | _ => none
  | .inserted i =>
      match s.calls[i]? with
      | some ⟨.register T name, .inserting⟩ =>
          some { s.setPc i (.register T name) (.returned (some s.registry.next)) with
            registry := s.registry.addMetric T name }
      | _ => none

/-- The registry thread comes to its test of the queue, or to a loop over the
metrics. -/
def access (s : SharedRegistry) (a : ThreadAccess) : SharedRegistry :=
  if s.writing then s.race else { s with thread := a }

/-- `m_new_metrics.pop()`; the metric gets a fiber of its own. -/
def take (s : SharedRegistry) : SharedRegistry :=
  match s.registry.newMetrics with
  | metric :: rest =>
      { s with
        registry := { s.registry with newMetrics := rest }
        thread := .none
        taken := s.taken ++ [metric] }
  | [] => { s with thread := .none }

/-! ## §3. Every object is taken once. -/

/-- The objects that were made are those taken and those still queued. -/
def Served (s : SharedRegistry) : Prop :=
  s.taken ++ s.registry.newMetrics = List.range s.registry.next

variable {s t : SharedRegistry} {a : CallAction}

/-- What a step of a call can do: it races, moves a call on, or makes an object. -/
theorem callStep_cases (hstep : s.callStep a = some t) :
    t = s.race ∨ (∃ calls, t = { s with calls := calls }) ∨
      ∃ calls T name, t = { s with calls := calls, registry := s.registry.addMetric T name } := by
  cases a with
  | enter call =>
      simp only [callStep] at hstep
      split at hstep
      · exact .inl (Option.some.inj hstep).symm
      · exact .inr (.inl ⟨_, (Option.some.inj hstep).symm⟩)
  | found i =>
      simp only [callStep] at hstep
      split at hstep
      · exact .inr (.inl ⟨_, (Option.some.inj hstep).symm⟩)
      · cases hstep
  | insert i =>
      simp only [callStep] at hstep
      split at hstep
      · split at hstep
        · exact .inl (Option.some.inj hstep).symm
        · exact .inr (.inl ⟨_, (Option.some.inj hstep).symm⟩)
      · cases hstep
  | inserted i =>
      simp only [callStep] at hstep
      split at hstep
      · exact .inr (.inr ⟨_, _, _, (Option.some.inj hstep).symm⟩)
      · cases hstep

/-- **A step of a call**; two calls for one name make two objects. -/
theorem served_call (h : s.Served) (hstep : s.callStep a = some t) (hsafe : t.raced = false) :
    t.Served := by
  obtain rfl | ⟨calls, rfl⟩ | ⟨calls, T, name, rfl⟩ := callStep_cases hstep
  · cases hsafe
  · exact h
  · show s.taken ++ (s.registry.newMetrics ++ [s.registry.next]) = List.range (s.registry.next + 1)
    rw [← List.append_assoc, h, List.range_succ]

example : (([.enter (.register .meter [0]), .enter (.register .meter [0]), .found 0, .found 1,
    .insert 0, .inserted 0, .insert 1, .inserted 1] : List CallAction).foldlM callStep {}).map
    (fun s => (s.raced, s.registry.next, s.registry.newMetrics)) = some (false, 2, [0, 1]) := rfl

/-- **A pop** moves an object from the queue to its fiber. -/
theorem served_take (h : s.Served) : s.take.Served := by
  unfold take
  split
  · rename_i metric rest hqueue
    show s.taken ++ [metric] ++ rest = List.range s.registry.next
    rw [← h, hqueue, List.append_assoc]
    rfl
  · exact h

/-- One more call. -/
def withCall (s : SharedRegistry) (call : RegistryCall) (pc : RegistryPc) : SharedRegistry :=
  { s with calls := s.calls ++ [⟨call, pc⟩] }

theorem withCall_last (s : SharedRegistry) (call : RegistryCall) (pc : RegistryPc) :
    (s.withCall call pc).calls[s.calls.length]? = some ⟨call, pc⟩ := List.getElem?_concat_length

theorem setPc_withCall (s : SharedRegistry) (call : RegistryCall) (pc pc' : RegistryPc) :
    (s.withCall call pc).setPc s.calls.length call pc' = s.withCall call pc' := by
  simp [setPc, withCall]

theorem callStep_found (s : SharedRegistry) (call : RegistryCall) :
    (s.withCall call .finding).callStep (.found s.calls.length) =
      some (s.withCall call (afterFind s.registry call)) := by
  simp only [callStep, withCall_last, setPc_withCall]
  rfl

/-- **A call that meets no other one** does what `registerMetric` does. -/
theorem lone_register (hwriting : s.writing = false) (hreading : s.reading = false)
    (hthread : s.thread = .none) (T : MetricKind) (name : Bytes) :
    ∃ acts : List CallAction, acts.foldlM callStep s =
      some ({ s with registry := (s.registry.registerMetric T name).1 }.withCall (.register T name)
        (.returned (some (s.registry.registerMetric T name).2))) := by
  have henter : s.callStep (.enter (.register T name)) =
      some (s.withCall (.register T name) .finding) := by
    simp [callStep, hwriting, withCall]
  have hfound := callStep_found s (.register T name)
  unfold Registry.registerMetric
  cases hget : s.registry.getMetric T name with
  | some id =>
      refine ⟨[.enter (.register T name), .found s.calls.length], ?_⟩
      have hafter : afterFind s.registry (.register T name) = .returned (some id) := by
        simp [afterFind, hget]
      rw [hafter] at hfound
      simp [henter, hfound]
  | none =>
      refine ⟨[.enter (.register T name), .found s.calls.length, .insert s.calls.length,
        .inserted s.calls.length], ?_⟩
      have hafter : afterFind s.registry (.register T name) = .missed := by simp [afterFind, hget]
      have hinsert : (s.withCall (.register T name) .missed).callStep (.insert s.calls.length) =
          some (s.withCall (.register T name) .inserting) := by
        have hidle : ((s.withCall (.register T name) .missed).writing ||
            (s.withCall (.register T name) .missed).reading ||
            (s.withCall (.register T name) .missed).thread ≠ .none) = false := by
          unfold writing at hwriting
          unfold reading at hreading
          simp [writing, reading, withCall, hthread, hwriting, hreading]
        simp only [callStep, withCall_last, setPc_withCall]
        rw [hidle]
        rfl
      have hinserted : (s.withCall (.register T name) .inserting).callStep
          (.inserted s.calls.length) =
          some ({ s with registry := s.registry.addMetric T name }.withCall (.register T name)
            (.returned (some s.registry.next))) := by
        simp only [callStep, withCall_last, setPc_withCall]
        rfl
      rw [hafter] at hfound
      simp only [List.foldlM_cons, List.foldlM_nil, henter, hfound, hinsert, hinserted,
        Option.bind_eq_bind, Option.bind_some]
      rfl

/-- An access of the registry thread changes nothing. -/
theorem access_eq {access : ThreadAccess} (hsafe : (s.access access).raced = false) :
    s.access access = { s with thread := access } := by
  unfold SharedRegistry.access at hsafe ⊢
  split
  · rename_i hwriting
    rw [if_pos hwriting] at hsafe
    cases hsafe
  · rfl

/-- What a step of a call keeps. -/
theorem callStep_frame (hstep : s.callStep a = some t) :
    t.taken = s.taken ∧ (t.raced = false → s.raced = false) := by
  obtain rfl | ⟨calls, rfl⟩ | ⟨calls, T, name, rfl⟩ := callStep_cases hstep
  · refine ⟨rfl, ?_⟩
    intro hsafe
    cases hsafe
  · exact ⟨rfl, id⟩
  · exact ⟨rfl, id⟩

end SharedRegistry

end Petrel
