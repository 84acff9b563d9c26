/-
  Petrel.Lib.Metric — the metric objects of the handlers.

  A metric object holds a pointer to a metric of the registry and a tag that
  names its type.  The six methods that register or get a metric set one after
  the other; the other methods ask the tag, cast the pointer, and use what the
  cast yields without another check.  Many objects share the registry, where a
  name can change its type.

  Main results:
    * `ObjectSound.grow` — what other objects register does not matter.
    * `method_spec` — what a method does if it is used well, and if it is
      misused.
    * `step_does` — what each action does to all objects and metrics.
    * `metric_tag_sound` — in every run, every tag names the type of its
      metric, no method dies, and a misuse is an error that changes nothing.
-/

import Petrel.Lua.Args
import Petrel.Metrics.Registry
import Petrel.Core.LuaEngine
import Petrel.Framework.Machine

namespace Petrel

open Framework

/-! ## §1. The metrics and the objects. -/

/-- `metric::type`. -/
inductive MetricType where
  | undef
  | counter
  | meter
  | timer
  deriving DecidableEq

/-- The type that a tag names. -/
def MetricType.kind : MetricType → Option MetricKind
  | .undef => none
  | .counter => some .counter
  | .meter => some .meter
  | .timer => some .timer

/-- The tag of a type. -/
def MetricKind.tag : MetricKind → MetricType
  | .counter => .counter
  | .meter => .meter
  | .timer => .timer

/-- `metrics::timer::duration`. -/
structure Duration where
  timers : List (Option MetricId)    -- none for a null pointer
  start : Int
  finished : Bool := false
  deriving DecidableEq

/-- `lib::metric`: `m_type`, `m_metric` and `m_duration`. -/
structure MetricObject where
  type : MetricType := .undef
  metric : Option MetricId := none
  duration : Option Duration := none
  deriving DecidableEq

/-- The registry of the server and the data of all metrics.  A metric that has
not been made yet has the data of a new one. -/
structure MetricStore (Num : Type) where
  registry : Registry := {}
  val : MetricId → UInt64 := fun _ => 0          -- `m_val` of a counter, `m_counter_1s` of a meter
  total : MetricId → UInt64 := fun _ => 0        -- `m_counter_total` of a meter
  times : MetricId → List Num := fun _ => []     -- what a timer has been given

/-- What a method works on. -/
structure MetricCall (Num : Type) where
  store : MetricStore Num
  self : MetricObject

/-- The body of a method.  An error of Lua leaves it as an exception does. -/
abbrev MetricCode (Num α : Type) := Code LuaError Fault (MetricCall Num) α

namespace Metric

variable {Num : Type}

/-- `luaL_error`. -/
def luaError {α : Type} (msg : String) : MetricCode Num α := Code.throw (.message (bytes msg))

/-- An argument that has been checked. -/
def checked {α : Type} : Except LuaError α → MetricCode Num α
  | .ok a => pure a
  | .error e => Code.throw e

/-- `p->`. -/
def deref {α : Type} : Option α → MetricCode Num α
  | some a => pure a
  | none => Code.die .nullDereference

/-- `std::dynamic_pointer_cast<T>(m_metric)`. -/
def castMetric (T : MetricKind) : MetricCode Num (Option MetricId) := do
  let s ← Code.get
  return s.self.metric.bind (fun id => if s.store.registry.kind id = T then some id else none)

/-! ### The metrics. -/

/-- `timer::update`. -/
def timerUpdate (t : Option MetricId) (x : Num) : MetricCode Num Unit := do
  let id ← deref t
  Code.modify (fun s =>
    { s with store.times := Function.update s.store.times id (s.store.times id ++ [x]) })

/-- `counter::increment`, which `meter::increment` calls as well. -/
def counterIncrement (c : Option MetricId) (i : UInt64) : MetricCode Num Unit := do
  let id ← deref c
  Code.modify (fun s =>
    { s with store.val := Function.update s.store.val id (s.store.val id + i) })

/-- `counter::decrement`. -/
def counterDecrement (c : Option MetricId) (i : UInt64) : MetricCode Num Unit := do
  let id ← deref c
  Code.modify (fun s =>
    { s with store.val := Function.update s.store.val id (s.store.val id - i) })

/-- `counter::get_and_reset`, without the value. -/
def counterReset (c : Option MetricId) : MetricCode Num Unit := do
  let id ← deref c
  Code.modify (fun s => { s with store.val := Function.update s.store.val id 0 })

/-- `counter::get`. -/
def counterGet (c : Option MetricId) : MetricCode Num UInt64 := do
  let id ← deref c
  let s ← Code.get
  return s.store.val id

/-- `meter::total`. -/
def meterTotal (c : Option MetricId) : MetricCode Num UInt64 := do
  let id ← deref c
  let s ← Code.get
  return s.store.total id

/-- The loop of `duration::update` over its timers. -/
def updateTimers (x : Num) : List (Option MetricId) → MetricCode Num Unit
  | [] => pure ()
  | t :: timers => do
      timerUpdate t x
      updateTimers x timers

variable [LuaNumber Num]

/-- `duration::update` at the time `now`. -/
def durationUpdate (d : Duration) (now : Int) : MetricCode Num Duration := do
  if d.finished then pure d
  else do
    updateTimers (LuaNumber.ofInt (now - d.start)) d.timers
    return { d with start := now }

/-- The destructor of a duration. -/
def destroyDuration (d : Option Duration) (now : Int) : MetricCode Num Unit :=
  match d with
  | none => pure ()
  | some d => do
      let _ ← durationUpdate d now
      pure ()

/-! ### The methods. -/

/-- The common text of the methods that register or get a metric. -/
def assign (call : Bytes → RegistryCall) (type : MetricType) (args : List (LuaValue Num)) :
    MetricCode Num (List Int) := do
  let name ← checked (checkString args 1)
  Code.modify (fun s =>
    let r := s.store.registry.call (call name)
    { s with store.registry := r.1, self.metric := r.2 })
  Code.modify (fun s => { s with self.type := type })
  return []

def registerCounter (args : List (LuaValue Num)) : MetricCode Num (List Int) :=
  assign (.register .counter) .counter args

def registerMeter (args : List (LuaValue Num)) : MetricCode Num (List Int) :=
  assign (.register .meter) .meter args

def registerTimer (args : List (LuaValue Num)) : MetricCode Num (List Int) :=
  assign (.register .timer) .timer args

def getCounter (args : List (LuaValue Num)) : MetricCode Num (List Int) :=
  assign (.get .counter) .counter args

def getMeter (args : List (LuaValue Num)) : MetricCode Num (List Int) :=
  assign (.get .meter) .meter args

def getTimer (args : List (LuaValue Num)) : MetricCode Num (List Int) :=
  assign (.get .timer) .timer args

/-- The common text of the methods that work for one type: the metric and the
tag are checked, and the pointer is cast. -/
def guarded (T : MetricKind) (msg : String) (body : Option MetricId → MetricCode Num (List Int)) :
    MetricCode Num (List Int) := do
  let s ← Code.get
  if s.self.metric = none then luaError "no metric assigned"
  else if s.self.type ≠ T.tag then luaError msg
  else do
    let p ← castMetric T
    body p

/-- The common text of `increment` and `total`, which work for two types. -/
def switched (msg : String) (onCounter onMeter : Option MetricId → MetricCode Num (List Int)) :
    MetricCode Num (List Int) := do
  let s ← Code.get
  if s.self.metric = none then luaError "no metric assigned"
  else match s.self.type with
    | .counter => do
        let c ← castMetric .counter
        onCounter c
    | .meter => do
        let m ← castMetric .meter
        onMeter m
    | .undef | .timer => luaError msg

def update (args : List (LuaValue Num)) : MetricCode Num (List Int) := do
  let val ← checked (checkNumber args 1)
  guarded .timer "invalid metric type, update works only for timer metrics" fun timer => do
    timerUpdate timer val
    return []

/-- The new duration reads the clock first, then the destructor of the old one
does. -/
def startDuration (clock : Nat → Int) : MetricCode Num (List Int) :=
  guarded .timer "invalid metric type, start_duration works only for timer metrics" fun timer => do
    let s ← Code.get
    Code.modify (fun s => { s with self.duration := some { timers := [timer], start := clock 0 } })
    destroyDuration s.self.duration (clock 1)
    return []

/-- The common text of `update_duration` and `finish_duration`. -/
def measure (finish : Duration → Duration) (clock : Nat → Int) : MetricCode Num (List Int) := do
  let s ← Code.get
  match s.self.duration with
  | none => luaError "no duration, you have to call start_duration"
  | some d => do
      let d ← durationUpdate d (clock 0)
      Code.modify (fun s => { s with self.duration := some (finish d) })
      return []

def updateDuration (clock : Nat → Int) : MetricCode Num (List Int) := measure id clock

def finishDuration (clock : Nat → Int) : MetricCode Num (List Int) :=
  measure (fun d => { d with finished := true }) clock

/-- The argument of `increment` and `decrement`, before it is narrowed. -/
def amount (args : List (LuaValue Num)) : Int :=
  if (argAt args 1).isNumber then (argAt args 1).toInteger else 1

/-- `int val`, as it is handed to the counter: the sign is extended to 64 bits. -/
def narrowed (args : List (LuaValue Num)) : UInt64 := UInt64.ofInt (toInt32 (amount args))

def increment (args : List (LuaValue Num)) : MetricCode Num (List Int) :=
  switched "invalid metric type, increment works only for counter and meter metrics"
    (fun c => do
      counterIncrement c (narrowed args)
      return [])
    (fun m => do
      counterIncrement m (narrowed args)
      return [])

def decrement (args : List (LuaValue Num)) : MetricCode Num (List Int) :=
  guarded .counter "invalid metric type, decrement works only for counters" fun c => do
    counterDecrement c (narrowed args)
    return []

/-- The number that `lua_pushinteger` takes for a `uint_fast64_t`. -/
def pushed (n : UInt64) : Int := (n.toNat : Int).bmod (2 ^ 64)

def total : MetricCode Num (List Int) :=
  switched "invalid metric type, total works only for counter and meter metrics"
    (fun c => do
      let total ← counterGet c
      return [pushed total])
    (fun m => do
      let total ← meterTotal m
      return [pushed total])

def reset : MetricCode Num (List Int) :=
  guarded .counter "invalid metric type, reset works only for counters" fun c => do
    counterReset c
    return []

end Metric

/-- The methods that Lua can call. -/
inductive MetricMethod where
  | registerCounter
  | registerMeter
  | registerTimer
  | getCounter
  | getMeter
  | getTimer
  | update
  | startDuration
  | updateDuration
  | finishDuration
  | increment
  | decrement
  | total
  | reset
  deriving DecidableEq

section Metric

variable {Num : Type} [LuaNumber Num]

/-- A call with its arguments and the times that it reads.  The numbers it
returns are those given to `lua_pushinteger`. -/
def MetricMethod.run (m : MetricMethod) (args : List (LuaValue Num)) (clock : Nat → Int) :
    MetricCode Num (List Int) :=
  match m with
  | .registerCounter => Metric.registerCounter args
  | .registerMeter => Metric.registerMeter args
  | .registerTimer => Metric.registerTimer args
  | .getCounter => Metric.getCounter args
  | .getMeter => Metric.getMeter args
  | .getTimer => Metric.getTimer args
  | .update => Metric.update args
  | .startDuration => Metric.startDuration clock
  | .updateDuration => Metric.updateDuration clock
  | .finishDuration => Metric.finishDuration clock
  | .increment => Metric.increment args
  | .decrement => Metric.decrement args
  | .total => Metric.total
  | .reset => Metric.reset

/-! ## §2. Runs of many objects. -/

/-- What Lua asks of a counter, with the numbers as Lua has them. -/
inductive CounterOp where
  | increment (n : Int)
  | decrement (n : Int)
  | reset
  deriving DecidableEq

/-- What a method asks of the counter that its object holds. -/
def MetricMethod.counterOp (m : MetricMethod) (args : List (LuaValue Num)) : Option CounterOp :=
  match m with
  | .increment => some (.increment (Metric.amount args))
  | .decrement => some (.decrement (Metric.amount args))
  | .reset => some .reset
  | _ => none

/-- The dynamic type of the metric that an object holds. -/
def MetricCall.dynamicType (s : MetricCall Num) : Option MetricKind :=
  s.self.metric.map s.store.registry.kind

/-- A process with metric objects, which are new until they are used.  `ops`
lists what Lua has asked of each counter. -/
structure MetricWorld (Num : Type) where
  store : MetricStore Num := {}
  objects : Nat → MetricObject := fun _ => {}
  ops : MetricId → List CounterOp := fun _ => []
  fault : Option Fault := none

/-- What an object works on. -/
def MetricWorld.callOf (s : MetricWorld Num) (o : Nat) : MetricCall Num := ⟨s.store, s.objects o⟩

/-- What happens to the metrics: Lua calls a method of an object, the server
registers a metric, uses one of its meters and timers or aggregates a metric,
and an object is deleted. -/
inductive MetricAction (Num : Type) where
  | call (o : Nat) (m : MetricMethod) (args : List (LuaValue Num)) (clock : Nat → Int)
  | register (T : MetricKind) (name : Bytes)
  | countMeter (id : MetricId)
  | measure (id : MetricId) (x : Num)
  | aggregate (id : MetricId)
  | delete (o : Nat) (now : Int)

/-- Note what the action asks of a counter. -/
def MetricWorld.note (s : MetricWorld Num) (o : Nat) (m : MetricMethod) (args : List (LuaValue Num)) :
    MetricId → List CounterOp := fun id =>
  if (s.objects o).metric = some id ∧ s.store.registry.kind id = .counter then
    s.ops id ++ (m.counterOp args).toList
  else s.ops id

/-- Go on behind a piece of code of an object. -/
def MetricWorld.behind {α : Type} (s : MetricWorld Num) (o : Nat) (ops : MetricId → List CounterOp) :
    Outcome LuaError Fault (MetricCall Num) α → Option (MetricWorld Num)
  | .returned _ t => some
      { s with store := t.store, objects := Function.update s.objects o t.self, ops := ops }
  | .threw _ t => some { s with store := t.store, objects := Function.update s.objects o t.self }
  | .died f t => some
      { s with store := t.store, objects := Function.update s.objects o t.self, fault := some f }
  | .exhausted _ => none

/-- `meter::aggregate`; a counter has nothing to aggregate. -/
def MetricStore.aggregate (store : MetricStore Num) (id : MetricId) : MetricStore Num :=
  if store.registry.kind id = .meter then
    { store with
      val := Function.update store.val id 0
      total := Function.update store.total id (store.total id + store.val id) }
  else store

def metricStep (s : MetricWorld Num) (a : MetricAction Num) : Option (MetricWorld Num) :=
  if s.fault.isSome then none
  else match a with
    | .call o m args clock => s.behind o (s.note o m args) (m.run args clock (s.callOf o))
    | .register T name =>
        some { s with store.registry := (s.store.registry.registerMetric T name).1 }
    | .countMeter id =>
        if s.store.registry.kind id = .meter then
          some { s with store.val := Function.update s.store.val id (s.store.val id + 1) }
        else none
    | .measure id x =>
        if s.store.registry.kind id = .timer then
          some { s with store.times := Function.update s.store.times id (s.store.times id ++ [x]) }
        else none
    | .aggregate id => some { s with store := s.store.aggregate id }
    | .delete o now =>
        (s.behind o s.ops (Metric.destroyDuration (s.objects o).duration now (s.callOf o))).map
          fun t => { t with objects := Function.update t.objects o {} }

/-- The metrics of a process, from its start on. -/
def metricMachine (Num : Type) [LuaNumber Num] : Machine (MetricWorld Num) (MetricAction Num) where
  init := {}
  step := metricStep

/-! ## §3. Tags and pointers. -/

/-- The tag names the type of the metric, and a duration has no null
pointers. -/
structure ObjectSound (r : Registry) (obj : MetricObject) : Prop where
  metric : ∀ id, obj.metric = some id → id < r.next ∧ obj.type.kind = some (r.kind id)
  duration : ∀ d, obj.duration = some d → ∀ t ∈ d.timers, t.isSome

/-- A registry that has the metrics of another one. -/
structure Registry.Grows (r r' : Registry) : Prop where
  next : r.next ≤ r'.next
  kind : ∀ id, id < r.next → r'.kind id = r.kind id

theorem Registry.Grows.refl (r : Registry) : r.Grows r := ⟨Nat.le_refl _, fun _ _ => rfl⟩

theorem registerMetric_grows (r : Registry) (T : MetricKind) (name : Bytes) :
    r.Grows (r.registerMetric T name).1 := by
  unfold Registry.registerMetric
  cases r.getMetric T name with
  | some id => exact .refl r
  | none => exact ⟨Nat.le_succ _, fun id hid => Function.update_of_ne (Nat.ne_of_lt hid) _ _⟩

/-- What other objects register does not matter. -/
theorem ObjectSound.grow {r r' : Registry} {obj : MetricObject} (h : ObjectSound r obj)
    (hgrows : r.Grows r') : ObjectSound r' obj := by
  refine ⟨?_, h.duration⟩
  intro id hid
  obtain ⟨hlt, hkind⟩ := h.metric id hid
  exact ⟨Nat.lt_of_lt_of_le hlt hgrows.next, by rw [hgrows.kind id hlt, hkind]⟩

theorem objectSound_new (r : Registry) : ObjectSound r {} := ⟨nofun, nofun⟩

theorem call_grows (r : Registry) (c : RegistryCall) : r.Grows (r.call c).1 := by
  cases c with
  | register T name => exact registerMetric_grows r T name
  | get T name => exact .refl r

theorem call_numbered {r : Registry} (hr : r.Numbered) (c : RegistryCall) : (r.call c).1.Numbered := by
  cases c with
  | register T name => exact registerMetric_numbered hr T name
  | get T name => exact hr

/-- The type that a call asks for. -/
def RegistryCall.type : RegistryCall → MetricKind
  | .register T _ | .get T _ => T

/-- What a call of the registry returns is null or of the type asked for. -/
theorem call_sound {r : Registry} (hr : r.Numbered) (c : RegistryCall) {id : MetricId}
    (hid : (r.call c).2 = some id) : id < (r.call c).1.next ∧ (r.call c).1.kind id = c.type := by
  have hfound : ∀ {r : Registry}, r.Numbered → ∀ {T name}, r.getMetric T name = some id →
      id < r.next ∧ r.kind id = T := by
    intro r hr T name hget
    obtain ⟨hname, hkind⟩ := (getMetric_eq_some_iff r T name id).mp hget
    exact ⟨hr name id hname, hkind⟩
  cases c with
  | register T name =>
      obtain rfl := Option.some.inj hid
      exact hfound (registerMetric_numbered hr T name) (getMetric_registerMetric r T name)
  | get T name => exact hfound hr hid

/-- **Setting the pointer and the tag.**  What is set is of the type asked for,
or null. -/
theorem ObjectSound.assign {r : Registry} {obj : MetricObject} (h : ObjectSound r obj)
    {T : MetricKind} {type : MetricType} (htype : type.kind = some T) {metric : Option MetricId}
    (hmetric : ∀ id, metric = some id → id < r.next ∧ r.kind id = T) :
    ObjectSound r { obj with metric := metric, type := type } := by
  refine ⟨?_, h.duration⟩
  intro id hid
  obtain ⟨hlt, hkind⟩ := hmetric id hid
  exact ⟨hlt, by rw [hkind]; exact htype⟩

/-- The tag of an object that holds a metric. -/
theorem ObjectSound.type_eq {r : Registry} {obj : MetricObject} (h : ObjectSound r obj)
    {id : MetricId} (hid : obj.metric = some id) : obj.type = (r.kind id).tag := by
  have hkind := (h.metric id hid).2
  cases htype : obj.type with
  | undef =>
      rw [htype] at hkind
      cases hkind
  | counter | meter | timer =>
      rw [htype] at hkind
      rw [← Option.some.inj hkind]
      rfl

/-! ## §4. What a method does. -/

/-- What the code does to the value of a counter. -/
def CounterOp.apply (v : UInt64) : CounterOp → UInt64
  | .increment n => v + UInt64.ofInt (toInt32 n)
  | .decrement n => v - UInt64.ofInt (toInt32 n)
  | .reset => 0

/-- The method has no argument of the type it asks for, or its object has no
metric of a type it works for, or no duration. -/
def MetricMethod.Misused (m : MetricMethod) (args : List (LuaValue Num)) (s : MetricCall Num) : Prop :=
  match m with
  | .registerCounter | .registerMeter | .registerTimer | .getCounter | .getMeter | .getTimer =>
      (argAt args 1).toText = none
  | .update => (argAt args 1).toNumber = none ∨ s.dynamicType ≠ some .timer
  | .startDuration => s.dynamicType ≠ some .timer
  | .updateDuration | .finishDuration => s.self.duration = none
  | .increment | .total => s.dynamicType ≠ some .counter ∧ s.dynamicType ≠ some .meter
  | .decrement | .reset => s.dynamicType ≠ some .counter

/-- What a method may do that returns. -/
structure MethodEffect (m : MetricMethod) (args : List (LuaValue Num)) (s t : MetricCall Num) :
    Prop where
  registry : t.store.registry = s.store.registry ∨
    ∃ c, t.store.registry = (s.store.registry.call c).1
  sound : ObjectSound t.store.registry t.self
  val : ∀ id, s.store.registry.kind id = .counter → t.store.val id =
    if s.self.metric = some id then (m.counterOp args).toList.foldl CounterOp.apply (s.store.val id)
    else s.store.val id
  self : ∀ op, m.counterOp args = some op → t.self = s.self

/-- How a method ends. -/
def MethodSpec (m : MetricMethod) (args : List (LuaValue Num)) (clock : Nat → Int)
    (s : MetricCall Num) : Prop :=
  (m.Misused args s → ∃ e, m.run args clock s = .threw e s) ∧
    (¬ m.Misused args s → ∃ result t, m.run args clock s = .returned result t ∧
      MethodEffect m args s t)

variable {args : List (LuaValue Num)} {clock : Nat → Int} {s : MetricCall Num}

/-- A method that asks nothing of a counter and leaves all values alone. -/
theorem methodEffect_of_val {m : MetricMethod} {t : MetricCall Num} (hop : m.counterOp args = none)
    (hregistry : t.store.registry = s.store.registry ∨
      ∃ c, t.store.registry = (s.store.registry.call c).1)
    (hsound : ObjectSound t.store.registry t.self)
    (hval : ∀ id, s.store.registry.kind id = .counter → t.store.val id = s.store.val id) :
    MethodEffect m args s t := by
  refine ⟨hregistry, hsound, ?_, ?_⟩
  · intro id hid
    rw [hval id hid, hop]
    exact (ite_self _).symm
  · intro op hsome
    exact nomatch hop.symm.trans hsome

/-! ### Registering and getting. -/

theorem assign_spec {m : MetricMethod} {call : Bytes → RegistryCall} {type : MetricType}
    (hrun : m.run args clock = Metric.assign call type args)
    (hmisused : m.Misused args s ↔ (argAt args 1).toText = none) (hop : m.counterOp args = none)
    (htype : ∀ name, type.kind = some (call name).type) (hr : s.store.registry.Numbered)
    (h : ObjectSound s.store.registry s.self) : MethodSpec m args clock s := by
  unfold MethodSpec
  rw [hmisused, hrun]
  unfold Metric.assign checkString
  cases hname : (argAt args 1).toText with
  | none => exact ⟨fun _ => ⟨_, rfl⟩, fun hgood => absurd rfl hgood⟩
  | some name =>
      refine ⟨nofun, fun _ => ⟨[], _, rfl, ?_⟩⟩
      refine methodEffect_of_val hop (.inr ⟨call (cStr name), rfl⟩) ?_ (fun _ _ => rfl)
      exact (h.grow (call_grows _ (call (cStr name)))).assign (htype (cStr name))
        (fun id hid => call_sound hr _ hid)

/-! ### Durations. -/

omit [LuaNumber Num] in
theorem updateTimers_returned {timers : List (Option MetricId)} (h : ∀ t ∈ timers, t.isSome)
    (x : Num) (s : MetricCall Num) :
    ∃ times, Metric.updateTimers x timers s = .returned () { s with store.times := times } := by
  induction timers generalizing s with
  | nil => exact ⟨s.store.times, rfl⟩
  | cons t timers ih =>
      obtain ⟨id, rfl⟩ := Option.isSome_iff_exists.mp (h t (List.mem_cons_self ..))
      exact ih (fun t ht => h t (List.mem_cons_of_mem _ ht)) _

theorem durationUpdate_returned {d : Duration} (h : ∀ t ∈ d.timers, t.isSome) (now : Int)
    (s : MetricCall Num) :
    ∃ start times, Metric.durationUpdate d now s =
      .returned { d with start := start } { s with store.times := times } := by
  unfold Metric.durationUpdate
  by_cases hfinished : d.finished
  · rw [if_pos hfinished]
    exact ⟨d.start, s.store.times, rfl⟩
  · rw [if_neg hfinished]
    obtain ⟨times, htimes⟩ := updateTimers_returned h (LuaNumber.ofInt (now - d.start) : Num) s
    refine ⟨now, times, ?_⟩
    rw [Code.bind_apply, htimes]
    rfl

theorem destroyDuration_returned {r : Registry} {obj : MetricObject} (h : ObjectSound r obj)
    (now : Int) (s : MetricCall Num) :
    ∃ times, Metric.destroyDuration obj.duration now s =
      .returned () { s with store.times := times } := by
  cases hd : obj.duration with
  | none => exact ⟨s.store.times, rfl⟩
  | some d =>
      obtain ⟨start, times, hupdate⟩ := durationUpdate_returned (h.duration d hd) now s
      refine ⟨times, ?_⟩
      unfold Metric.destroyDuration
      dsimp only
      rw [Code.bind_apply, hupdate]
      rfl

/-! ### The other methods. -/

omit [LuaNumber Num] in
theorem castMetric_of_kind {id : MetricId} (hid : s.self.metric = some id) {T : MetricKind}
    (hkind : s.store.registry.kind id = T) : Metric.castMetric T s = .returned (some id) s := by
  unfold Metric.castMetric
  rw [Code.bind_apply, Code.get_apply, Outcome.andThen_returned]
  show Outcome.returned (s.self.metric.bind _) s = _
  rw [hid, Option.bind_some, if_pos hkind]

omit [LuaNumber Num] in
theorem dynamicType_of_some {id : MetricId} (hid : s.self.metric = some id) :
    s.dynamicType = some (s.store.registry.kind id) := by
  unfold MetricCall.dynamicType
  rw [hid]
  rfl

omit [LuaNumber Num] in
/-- An object has a metric of the type that its tag names, or none. -/
theorem metric_cases (h : ObjectSound s.store.registry s.self) :
    (s.self.metric = none ∧ s.dynamicType = none) ∨
      ∃ id T, s.self.metric = some id ∧ s.store.registry.kind id = T ∧ s.self.type = T.tag ∧
        s.dynamicType = some T := by
  cases hmetric : s.self.metric with
  | none =>
      refine .inl ⟨rfl, ?_⟩
      unfold MetricCall.dynamicType
      rw [hmetric]
      rfl
  | some id =>
      exact .inr ⟨id, s.store.registry.kind id, rfl, rfl, h.type_eq hmetric,
        dynamicType_of_some hmetric⟩

omit [LuaNumber Num] in
theorem guarded_threw (h : ObjectSound s.store.registry s.self) {T : MetricKind}
    (hbad : s.dynamicType ≠ some T) (msg : String)
    (body : Option MetricId → MetricCode Num (List Int)) :
    ∃ e, Metric.guarded T msg body s = .threw e s := by
  unfold Metric.guarded
  rw [Code.bind_apply, Code.get_apply, Outcome.andThen_returned]
  rcases metric_cases h with ⟨hnull, -⟩ | ⟨id, T', hid, -, htype, hdyn⟩
  · rw [if_pos hnull]
    exact ⟨_, rfl⟩
  · have hne : s.self.type ≠ T.tag := by
      intro heq
      rw [htype] at heq
      apply hbad
      rw [hdyn]
      cases T' <;> cases T <;> first | rfl | cases heq
    rw [if_neg (by rw [hid]; exact nofun), if_pos hne]
    exact ⟨_, rfl⟩

omit [LuaNumber Num] in
/-- A method that is used for a metric of its type goes on with the metric. -/
theorem guarded_of_kind (h : ObjectSound s.store.registry s.self) {T : MetricKind}
    (hgood : s.dynamicType = some T) (msg : String)
    (body : Option MetricId → MetricCode Num (List Int)) :
    ∃ id, s.self.metric = some id ∧ s.store.registry.kind id = T ∧
      Metric.guarded T msg body s = body (some id) s := by
  rcases metric_cases h with ⟨-, hdyn⟩ | ⟨id, T', hid, hkind, htype, hdyn⟩
  · exact nomatch hdyn.symm.trans hgood
  · obtain rfl := Option.some.inj (hdyn.symm.trans hgood)
    refine ⟨id, hid, hkind, ?_⟩
    unfold Metric.guarded
    rw [Code.bind_apply, Code.get_apply, Outcome.andThen_returned,
      if_neg (by rw [hid]; exact nofun), if_neg (not_not.mpr htype), Code.bind_apply,
      castMetric_of_kind hid hkind]
    rfl

omit [LuaNumber Num] in
theorem switched_threw (h : ObjectSound s.store.registry s.self)
    (hbad : s.dynamicType ≠ some .counter ∧ s.dynamicType ≠ some .meter) (msg : String)
    (onCounter onMeter : Option MetricId → MetricCode Num (List Int)) :
    ∃ e, Metric.switched msg onCounter onMeter s = .threw e s := by
  unfold Metric.switched
  rw [Code.bind_apply, Code.get_apply, Outcome.andThen_returned]
  rcases metric_cases h with ⟨hnull, -⟩ | ⟨id, T, hid, -, htype, hdyn⟩
  · rw [if_pos hnull]
    exact ⟨_, rfl⟩
  · rw [if_neg (by rw [hid]; exact nofun), htype]
    cases T with
    | counter => exact absurd hdyn hbad.1
    | meter => exact absurd hdyn hbad.2
    | timer => exact ⟨_, rfl⟩

omit [LuaNumber Num] in
/-- The methods for two types go on with a metric of either. -/
theorem switched_of_kind (h : ObjectSound s.store.registry s.self)
    (hgood : ¬ (s.dynamicType ≠ some .counter ∧ s.dynamicType ≠ some .meter)) (msg : String)
    (onCounter onMeter : Option MetricId → MetricCode Num (List Int)) :
    ∃ id, s.self.metric = some id ∧
      ((s.store.registry.kind id = .counter ∧
          Metric.switched msg onCounter onMeter s = onCounter (some id) s) ∨
        (s.store.registry.kind id = .meter ∧
          Metric.switched msg onCounter onMeter s = onMeter (some id) s)) := by
  rcases metric_cases h with ⟨-, hdyn⟩ | ⟨id, T, hid, hkind, htype, hdyn⟩
  · rw [hdyn] at hgood
    exact absurd ⟨nofun, nofun⟩ hgood
  · refine ⟨id, hid, ?_⟩
    unfold Metric.switched
    rw [Code.bind_apply, Code.get_apply, Outcome.andThen_returned,
      if_neg (by rw [hid]; exact nofun), htype]
    have hcast := castMetric_of_kind hid hkind
    cases T with
    | counter =>
        refine .inl ⟨hkind, ?_⟩
        show (Metric.castMetric .counter s).andThen _ = _
        rw [hcast]
        rfl
    | meter =>
        refine .inr ⟨hkind, ?_⟩
        show (Metric.castMetric .meter s).andThen _ = _
        rw [hcast]
        rfl
    | timer =>
        rw [hdyn] at hgood
        exact absurd ⟨nofun, nofun⟩ hgood

theorem update_spec (h : ObjectSound s.store.registry s.self) :
    MethodSpec .update args clock s := by
  constructor
  · intro hbad
    show ∃ e, Metric.update args s = .threw e s
    unfold Metric.update checkNumber
    cases hnum : (argAt args 1).toNumber with
    | none => exact ⟨_, rfl⟩
    | some x => exact guarded_threw h (hbad.resolve_left (by rw [hnum]; exact nofun)) _ _
  · intro hgood
    obtain ⟨hnum, htype⟩ := not_or.mp hgood
    obtain ⟨x, hx⟩ := Option.ne_none_iff_exists'.mp hnum
    obtain ⟨id, hid, -, hrun⟩ := guarded_of_kind h (not_not.mp htype)
      "invalid metric type, update works only for timer metrics"
      (fun timer => do
        Metric.timerUpdate timer x
        return [])
    refine ⟨[], { s with
      store.times := Function.update s.store.times id (s.store.times id ++ [x]) }, ?_,
      methodEffect_of_val rfl (.inl rfl) h (fun _ _ => rfl)⟩
    show Metric.update args s = _
    unfold Metric.update checkNumber
    rw [hx]
    exact hrun

theorem startDuration_spec (h : ObjectSound s.store.registry s.self) :
    MethodSpec .startDuration args clock s := by
  refine ⟨fun hbad => guarded_threw h hbad _ _, ?_⟩
  intro hgood
  obtain ⟨id, hid, -, hrun⟩ := guarded_of_kind h (not_not.mp hgood)
    "invalid metric type, start_duration works only for timer metrics"
    (fun timer => do
      let s ← Code.get
      Code.modify (fun s => { s with self.duration := some { timers := [timer], start := clock 0 } })
      Metric.destroyDuration s.self.duration (clock 1)
      return [])
  obtain ⟨times, hdestroy⟩ := destroyDuration_returned h (clock 1)
    { s with self.duration := some { timers := [some id], start := clock 0 } }
  refine ⟨[], { s with
    store.times := times
    self.duration := some { timers := [some id], start := clock 0 } },
    hrun.trans ?_, methodEffect_of_val rfl (.inl rfl) ?_ (fun _ _ => rfl)⟩
  · show (Metric.destroyDuration s.self.duration (clock 1) _).andThen _ = _
    rw [hdestroy]
    rfl
  · refine ⟨h.metric, ?_⟩
    intro d hd t ht
    obtain rfl := Option.some.inj hd
    obtain rfl := List.mem_singleton.mp ht
    rfl

theorem measure_spec {m : MetricMethod} {finish : Duration → Duration}
    (hrun : m.run args clock = Metric.measure finish clock)
    (hmisused : m.Misused args s ↔ s.self.duration = none) (hop : m.counterOp args = none)
    (hfinish : ∀ d, (finish d).timers = d.timers) (h : ObjectSound s.store.registry s.self) :
    MethodSpec m args clock s := by
  unfold MethodSpec
  rw [hmisused, hrun]
  unfold Metric.measure
  rw [Code.bind_apply, Code.get_apply, Outcome.andThen_returned]
  cases hd : s.self.duration with
  | none => exact ⟨fun _ => ⟨_, rfl⟩, fun hgood => absurd rfl hgood⟩
  | some d =>
      obtain ⟨start, times, hupdate⟩ := durationUpdate_returned (h.duration d hd) (clock 0) s
      refine ⟨nofun, fun _ => ⟨[], { s with
        store.times := times
        self.duration := some (finish { d with start := start }) }, ?_, ?_⟩⟩
      · show (Metric.durationUpdate d (clock 0) s).andThen _ = _
        rw [hupdate]
        rfl
      · refine methodEffect_of_val hop (.inl rfl) ⟨h.metric, ?_⟩ (fun _ _ => rfl)
        intro e he t ht
        obtain rfl := Option.some.inj he
        rw [hfinish] at ht
        exact h.duration d hd t ht

/-- A method that asks something of the counter that its object holds. -/
theorem methodEffect_of_op (m : MetricMethod) (op : CounterOp) (hop : m.counterOp args = some op)
    (h : ObjectSound s.store.registry s.self) {id : MetricId} (hid : s.self.metric = some id) :
    MethodEffect m args s
      { s with store.val := Function.update s.store.val id (op.apply (s.store.val id)) } := by
  refine ⟨.inl rfl, h, ?_, fun _ _ => rfl⟩
  intro id' _
  show Function.update s.store.val id _ id' = _
  rw [hid, hop]
  by_cases heq : id = id'
  · subst heq
    rw [Function.update_self, if_pos rfl]
    rfl
  · rw [Function.update_of_ne (Ne.symm heq), if_neg (fun hsome => heq (Option.some.inj hsome))]

theorem increment_spec (h : ObjectSound s.store.registry s.self) :
    MethodSpec .increment args clock s := by
  refine ⟨fun hbad => switched_threw h hbad _ _ _, ?_⟩
  intro hgood
  -- a meter counts its increments as a counter does
  obtain ⟨id, hid, ⟨-, hrun⟩ | ⟨-, hrun⟩⟩ := switched_of_kind h hgood
    "invalid metric type, increment works only for counter and meter metrics"
    (fun c => do
      Metric.counterIncrement c (Metric.narrowed args)
      return [])
    (fun m => do
      Metric.counterIncrement m (Metric.narrowed args)
      return [])
  · exact ⟨[], _, hrun, methodEffect_of_op .increment (.increment (Metric.amount args)) rfl h hid⟩
  · exact ⟨[], _, hrun, methodEffect_of_op .increment (.increment (Metric.amount args)) rfl h hid⟩

theorem decrement_spec (h : ObjectSound s.store.registry s.self) :
    MethodSpec .decrement args clock s := by
  refine ⟨fun hbad => guarded_threw h hbad _ _, ?_⟩
  intro hgood
  obtain ⟨id, hid, -, hrun⟩ := guarded_of_kind h (not_not.mp hgood)
    "invalid metric type, decrement works only for counters"
    (fun c => do
      Metric.counterDecrement c (Metric.narrowed args)
      return [])
  exact ⟨[], _, hrun, methodEffect_of_op .decrement (.decrement (Metric.amount args)) rfl h hid⟩

theorem reset_spec (h : ObjectSound s.store.registry s.self) : MethodSpec .reset args clock s := by
  refine ⟨fun hbad => guarded_threw h hbad _ _, ?_⟩
  intro hgood
  obtain ⟨id, hid, -, hrun⟩ := guarded_of_kind h (not_not.mp hgood)
    "invalid metric type, reset works only for counters"
    (fun c => do
      Metric.counterReset c
      return [])
  exact ⟨[], _, hrun, methodEffect_of_op .reset .reset rfl h hid⟩

omit [LuaNumber Num] in
/-- What `total` returns for a counter and for a meter. -/
theorem total_returned (h : ObjectSound s.store.registry s.self)
    (hgood : ¬ (s.dynamicType ≠ some .counter ∧ s.dynamicType ≠ some .meter)) :
    ∃ id, s.self.metric = some id ∧
      ((s.store.registry.kind id = .counter ∧
          Metric.total s = .returned [Metric.pushed (s.store.val id)] s) ∨
        (s.store.registry.kind id = .meter ∧
          Metric.total s = .returned [Metric.pushed (s.store.total id)] s)) :=
  switched_of_kind h hgood "invalid metric type, total works only for counter and meter metrics"
    (fun c => do
      let total ← Metric.counterGet c
      return [Metric.pushed total])
    (fun m => do
      let total ← Metric.meterTotal m
      return [Metric.pushed total])

theorem total_spec (h : ObjectSound s.store.registry s.self) : MethodSpec .total args clock s := by
  refine ⟨fun hbad => switched_threw h hbad _ _ _, ?_⟩
  intro hgood
  obtain ⟨id, -, ⟨-, hrun⟩ | ⟨-, hrun⟩⟩ := total_returned h hgood
  · exact ⟨_, s, hrun, methodEffect_of_val rfl (.inl rfl) h (fun _ _ => rfl)⟩
  · exact ⟨_, s, hrun, methodEffect_of_val rfl (.inl rfl) h (fun _ _ => rfl)⟩

/-- **How every method ends**: with an error that changes nothing if it is
misused, and with its result if it is not. -/
theorem method_spec (hr : s.store.registry.Numbered) (h : ObjectSound s.store.registry s.self)
    (m : MetricMethod) : MethodSpec m args clock s := by
  cases m with
  | registerCounter | registerMeter | registerTimer | getCounter | getMeter | getTimer =>
      exact assign_spec rfl Iff.rfl rfl (fun _ => rfl) hr h
  | update => exact update_spec h
  | startDuration => exact startDuration_spec h
  | updateDuration | finishDuration => exact measure_spec rfl Iff.rfl rfl (fun _ => rfl) h
  | increment => exact increment_spec h
  | decrement => exact decrement_spec h
  | total => exact total_spec h
  | reset => exact reset_spec h

/-! ## §5. Runs. -/

/-- What holds in every state of every run. -/
structure MetricInv (s : MetricWorld Num) : Prop where
  numbered : s.store.registry.Numbered
  objects : ∀ o, ObjectSound s.store.registry (s.objects o)
  fault : s.fault = none

/-- The registry behind a method. -/
theorem MethodEffect.grows {m : MetricMethod} {s t : MetricCall Num} (h : MethodEffect m args s t)
    (hr : s.store.registry.Numbered) :
    s.store.registry.Grows t.store.registry ∧ t.store.registry.Numbered := by
  rcases h.registry with hsame | ⟨c, hcall⟩
  · rw [hsame]
    exact ⟨.refl _, hr⟩
  · rw [hcall]
    exact ⟨call_grows _ c, call_numbered hr c⟩

omit [LuaNumber Num] in
/-- One object goes on, and the others keep what they have. -/
theorem MetricInv.behind {s t : MetricWorld Num} (h : MetricInv s) {o : Nat} {obj : MetricObject}
    (hgrows : s.store.registry.Grows t.store.registry) (hr : t.store.registry.Numbered)
    (hsound : ObjectSound t.store.registry obj) (hobjects : t.objects = Function.update s.objects o obj)
    (hfault : t.fault = s.fault) : MetricInv t := by
  refine ⟨hr, ?_, hfault.trans h.fault⟩
  intro o'
  rw [hobjects]
  by_cases ho : o' = o
  · rw [ho, Function.update_self]
    exact hsound
  · rw [Function.update_of_ne ho]
    exact (h.objects o').grow hgrows

/-- What each action does. -/
inductive StepDoes (s : MetricWorld Num) : MetricAction Num → MetricWorld Num → Prop where
  | misused {o m args clock} (h : m.Misused args (s.callOf o)) :
      StepDoes s (.call o m args clock) s
  | called {o m args clock u} (h : MethodEffect m args (s.callOf o) u) :
      StepDoes s (.call o m args clock) { s with
        store := u.store
        objects := Function.update s.objects o u.self
        ops := s.note o m args }
  | registered {T name} :
      StepDoes s (.register T name)
        { s with store.registry := (s.store.registry.registerMetric T name).1 }
  | counted {id} (h : s.store.registry.kind id = .meter) :
      StepDoes s (.countMeter id)
        { s with store.val := Function.update s.store.val id (s.store.val id + 1) }
  | measured {id x} (h : s.store.registry.kind id = .timer) :
      StepDoes s (.measure id x)
        { s with store.times := Function.update s.store.times id (s.store.times id ++ [x]) }
  | aggregated {id} : StepDoes s (.aggregate id) { s with store := s.store.aggregate id }
  | deleted {o now times} :
      StepDoes s (.delete o now) { s with
        store.times := times
        objects := Function.update s.objects o {} }

theorem call_does {s t : MetricWorld Num} (h : MetricInv s) {o : Nat} {m : MetricMethod}
    (hstep : s.behind o (s.note o m args) (m.run args clock (s.callOf o)) = some t) :
    StepDoes s (.call o m args clock) t := by
  have hspec : MethodSpec m args clock (s.callOf o) := method_spec h.numbered (h.objects o) m
  by_cases hbad : m.Misused args (s.callOf o)
  · obtain ⟨e, he⟩ := hspec.1 hbad
    rw [he] at hstep
    have ht : t = s := by
      rw [← Option.some.inj hstep]
      show { s with store := s.store, objects := Function.update s.objects o (s.objects o) } = s
      rw [Function.update_eq_self]
    subst ht
    exact .misused hbad
  · obtain ⟨result, u, hrun, heffect⟩ := hspec.2 hbad
    rw [hrun] at hstep
    obtain rfl := Option.some.inj hstep
    exact .called heffect

/-- The deletion of an object updates the timers of its duration. -/
theorem delete_does {s t : MetricWorld Num} (h : MetricInv s) {o : Nat} {now : Int}
    (hstep : (s.behind o s.ops (Metric.destroyDuration (s.objects o).duration now (s.callOf o))).map
      (fun t => { t with objects := Function.update t.objects o {} }) = some t) :
    StepDoes s (.delete o now) t := by
  obtain ⟨times, hdestroy⟩ := destroyDuration_returned (h.objects o) now (s.callOf o)
  have ht : t = { s with
      store.times := times
      objects := Function.update s.objects o {} } := by
    rw [hdestroy] at hstep
    rw [← Option.some.inj hstep]
    show MetricWorld.mk _ (Function.update (Function.update s.objects o _) o {}) _ _ = _
    rw [Function.update_idem]
    rfl
  subst ht
  exact .deleted

/-- **The cases of a step** from a state with the invariant. -/
theorem step_does {s t : MetricWorld Num} (h : MetricInv s) {a : MetricAction Num}
    (hstep : metricStep s a = some t) : StepDoes s a t := by
  have hfault : ¬ s.fault.isSome := by
    rw [h.fault]
    exact nofun
  unfold metricStep at hstep
  rw [if_neg hfault] at hstep
  cases a with
  | call o m args clock => exact call_does h hstep
  | register T name =>
      obtain rfl := Option.some.inj hstep
      exact .registered
  | countMeter id =>
      obtain ⟨hmeter, ht⟩ := Option.ite_none_right_eq_some.mp hstep
      obtain rfl := Option.some.inj ht
      exact .counted hmeter
  | measure id x =>
      obtain ⟨htimer, ht⟩ := Option.ite_none_right_eq_some.mp hstep
      obtain rfl := Option.some.inj ht
      exact .measured htimer
  | aggregate id =>
      obtain rfl := Option.some.inj hstep
      exact .aggregated
  | delete o now => exact delete_does h hstep

omit [LuaNumber Num] in
@[simp]
theorem aggregate_registry (store : MetricStore Num) (id : MetricId) :
    (store.aggregate id).registry = store.registry := by
  unfold MetricStore.aggregate
  split <;> rfl

omit [LuaNumber Num] in
/-- Only meters have something to aggregate. -/
theorem aggregate_val (store : MetricStore Num) (id : MetricId) {id' : MetricId}
    (hid : store.registry.kind id' = .counter) : (store.aggregate id).val id' = store.val id' := by
  unfold MetricStore.aggregate
  by_cases hmeter : store.registry.kind id = .meter
  · rw [if_pos hmeter]
    refine Function.update_of_ne ?_ _ _
    rintro rfl
    exact nomatch hid.symm.trans hmeter
  · rw [if_neg hmeter]

/-- **The step lemma.** -/
theorem metricInv_step {s t : MetricWorld Num} (h : MetricInv s) {a : MetricAction Num}
    (hstep : metricStep s a = some t) : MetricInv t := by
  cases step_does h hstep with
  | misused => exact h
  | called heffect =>
      obtain ⟨hgrows, hr⟩ := heffect.grows h.numbered
      exact h.behind hgrows hr heffect.sound rfl rfl
  | deleted => exact h.behind (.refl _) h.numbered (objectSound_new _) rfl rfl
  | @registered T name =>
      refine ⟨registerMetric_numbered h.numbered T name, ?_, h.fault⟩
      intro o
      exact (h.objects o).grow (registerMetric_grows _ T name)
  | counted | measured => exact ⟨h.numbered, h.objects, h.fault⟩
  | aggregated =>
      refine ⟨?_, ?_, h.fault⟩
      · simpa using h.numbered
      · simpa using h.objects

theorem metricInv_reach {s : MetricWorld Num} (h : (metricMachine Num).Reach s) : MetricInv s := by
  have hinit : MetricInv (metricMachine Num).init := by
    refine ⟨?_, fun _ => objectSound_new _, rfl⟩
    intro name id hid
    cases hid
  exact h.invariant hinit (fun _ _ _ hs _ hstep => metricInv_step hs hstep)

/-- **EVERY TAG NAMES THE TYPE OF ITS METRIC.**  In every state of every run the
metric of an object is null or of the type that its tag names.  So no method
uses a null pointer: a method that is misused ends with an error that leaves
the object and the metrics as they are, and every other call returns. -/
theorem metric_tag_sound {s : MetricWorld Num} (h : (metricMachine Num).Reach s) :
    s.fault = none ∧ ∀ o,
      (∀ id, (s.objects o).metric = some id →
        (s.objects o).type.kind = some (s.store.registry.kind id)) ∧
      ∀ (m : MetricMethod) (args : List (LuaValue Num)) (clock : Nat → Int),
        (m.Misused args (s.callOf o) →
          ∃ e, m.run args clock (s.callOf o) = .threw e (s.callOf o)) ∧
        (¬ m.Misused args (s.callOf o) →
          ∃ result t, m.run args clock (s.callOf o) = .returned result t) := by
  have hinv := metricInv_reach h
  refine ⟨hinv.fault, ?_⟩
  intro o
  refine ⟨fun id hid => ((hinv.objects o).metric id hid).2, ?_⟩
  intro m args clock
  have hspec : MethodSpec m args clock (s.callOf o) := method_spec hinv.numbered (hinv.objects o) m
  refine ⟨hspec.1, ?_⟩
  intro hgood
  obtain ⟨result, t, hrun, -⟩ := hspec.2 hgood
  exact ⟨result, t, hrun⟩

end Metric

/-- Two objects with one name: the second one gives it another type, and the
first one keeps its counter. -/
def twoTypes : List (MetricAction Int) :=
  [.call 0 .registerCounter [.string (bytes "hits")] (fun _ => 0),
    .call 1 .registerMeter [.string (bytes "hits")] (fun _ => 0),
    .call 0 .increment [] (fun _ => 0), .call 1 .getCounter [.string (bytes "hits")] (fun _ => 0),
    .call 0 .startDuration [] (fun _ => 0)]

/-- The tags of these objects name the types of their metrics. -/
theorem metric_tag_sound_two :
    ∃ s, (metricMachine Int).Reach s ∧ (s.objects 0).metric = some 0 ∧ (s.objects 1).metric = none ∧
      (s.objects 0).type.kind = some (s.store.registry.kind 0) ∧
      ∃ e, MetricMethod.run .decrement [] (fun _ => 0) (s.callOf 1) = .threw e (s.callOf 1) := by
  obtain ⟨s, hreach, hzero, hone⟩ := (metricMachine Int).exists_reach_of_run twoTypes
    (fun s => (s.objects 0).metric = some 0 ∧ (s.objects 1).metric = none) (by decide +kernel)
  have hsound := (metric_tag_sound hreach).2
  refine ⟨s, hreach, hzero, hone, (hsound 0).1 0 hzero, ?_⟩
  refine ((hsound 1).2 .decrement [] (fun _ => 0)).1 ?_
  show MetricCall.dynamicType _ ≠ _
  unfold MetricCall.dynamicType MetricWorld.callOf
  rw [hone]
  exact nofun

end Petrel
