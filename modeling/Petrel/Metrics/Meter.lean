/-
  Petrel.Metrics.Meter — meters and the fibers that aggregate them.

  The registry thread has one fiber that looks for new metrics once a second
  and starts a fiber for each, which then aggregates its metric once a second.
  A meter counts in `m_counter_1s`, from any thread; `aggregate` takes the count
  with one exchange and adds it to the total and to four moving averages.
  Calls of the registry and increments go on between the two halves, as long as
  no call meets another access to the maps.

  The rates are exact numbers here, not `double`.

  Main results:
    * `aggregation_step` — the invariant, one case per action.
    * `meter_counts_once` — every metric object has one fiber or waits for it,
      and no increment is lost or counted twice.
    * `run_meterRounds` — a fiber that goes round samples what its meter is given.
    * `meter_rate_window` — the samples of an interval make up 99.5 % of its rate.
-/

import Petrel.Framework.Ewma
import Petrel.Framework.Machine
import Petrel.Metrics.SharedRegistry

namespace Petrel

open Framework

/-! ## §1. Meters. -/

/-- The four alphas of the ctor. -/
structure MeterConfig (D : Type) where
  alpha1min : D
  alpha5min : D
  alpha15min : D
  alpha1hr : D

/-- `meter`. -/
structure Meter (D : Type) [Zero D] where
  counter1s : UInt64 := 0
  counterTotal : UInt64 := 0
  rate1min : D := 0
  rate5min : D := 0
  rate15min : D := 0
  rate1hr : D := 0

section Meters

variable {D : Type} [Field D]

/-- `aggregate` behind its first line, which has taken `c`. -/
def Meter.aggregate (cfg : MeterConfig D) (c : UInt64) (m : Meter D) : Meter D :=
  { m with
    counterTotal := m.counterTotal + c
    rate1min := m.rate1min * (1 - cfg.alpha1min) + (c.toNat : D) * cfg.alpha1min
    rate5min := m.rate5min * (1 - cfg.alpha5min) + (c.toNat : D) * cfg.alpha5min
    rate15min := m.rate15min * (1 - cfg.alpha15min) + (c.toNat : D) * cfg.alpha15min
    rate1hr := m.rate1hr * (1 - cfg.alpha1hr) + (c.toNat : D) * cfg.alpha1hr }

end Meters

/-! ## §2. The registry thread. -/

/-- Where the fiber that looks for new metrics is. -/
inductive ScanPc where
  | testing       -- at the test of `m_stop`
  | sleeping
  | scanning      -- about to test the queue
  | popping       -- has begun to
  | ended
  deriving DecidableEq

/-- Where the aggregation fiber of a metric is. -/
inductive MeterPc where
  | testing
  | sleeping
  | holding (c : UInt64)   -- has taken the count of its meter
  | ended
  deriving DecidableEq

/-- The registry with its thread and the meters; the metrics taken from the
queue are those that aggregation fibers were started for.  `added` and `turns`
record what a meter was given and what each `aggregate` has taken. -/
structure Aggregation (D : Type) [Zero D] where
  shared : SharedRegistry := {}
  stop : Bool := false
  scan : ScanPc := .testing
  pc : Nat → MeterPc := fun _ => .testing
  meters : MetricId → Meter D := fun _ => {}
  added : MetricId → UInt64 := fun _ => 0
  turns : MetricId → List UInt64 := fun _ => []

/-- The calls of the registry and `increment` are made by any thread; the others
are turns of the fibers of the registry thread. -/
inductive AggregationAction where
  | call (a : CallAction)
  | increment (id : MetricId) (n : UInt64)
  | stop
  | scan
  | aggregate (fiber : Nat)
  | walk      -- the loops for the log and for graphite
  | walked

section Steps

variable {D : Type} [Field D]

namespace Aggregation

def setPc (s : Aggregation D) (i : Nat) (pc : MeterPc) : Aggregation D :=
  { s with pc := Function.update s.pc i pc }

def setMeter (s : Aggregation D) (id : MetricId) (m : Meter D) : Aggregation D :=
  { s with meters := Function.update s.meters id m }

/-- The fiber that looks for new metrics. -/
def scanTurn (s : Aggregation D) : Option (Aggregation D) :=
  match s.scan with
  | .testing => some { s with scan := if s.stop then .ended else .sleeping }
  | .sleeping => some { s with scan := .scanning }
  | .scanning => some { s with shared := s.shared.access .popping, scan := .popping }
  | .popping =>
      -- the inner loop ends when the queue is empty
      some { s with
        shared := s.shared.take
        scan := if s.shared.registry.newMetrics = [] then .testing else .scanning }
  | .ended => none

/-- The aggregation fiber `i` of the metric `id`; the metrics that are not
meters have no counts to take. -/
def aggregateTurn (cfg : MeterConfig D) (s : Aggregation D) (i : Nat) (id : MetricId) :
    Option (Aggregation D) :=
  match s.pc i with
  | .testing => some (s.setPc i (if s.stop then .ended else .sleeping))
  | .sleeping =>
      if s.shared.registry.kind id = .meter then
        -- `get_and_reset` is one exchange
        some ((s.setPc i (.holding (s.meters id).counter1s)).setMeter id
          { s.meters id with counter1s := 0 })
      else some (s.setPc i .testing)
  | .holding c =>
      some { (s.setPc i .testing).setMeter id ((s.meters id).aggregate cfg c) with
        turns := Function.update s.turns id (s.turns id ++ [c]) }
  | .ended => none

end Aggregation

/-- One action; behind a race there is none. -/
def aggregationStep (cfg : MeterConfig D) (s : Aggregation D) (a : AggregationAction) :
    Option (Aggregation D) :=
  if s.shared.raced then none else
  match a with
  | .call a => (s.shared.callStep a).map (fun shared => { s with shared := shared })
  | .increment id n =>
      if id < s.shared.registry.next ∧ s.shared.registry.kind id = .meter then
        some { s.setMeter id { s.meters id with counter1s := (s.meters id).counter1s + n } with
          added := Function.update s.added id (s.added id + n) }
      else none
  | .stop => some { s with stop := true }
  -- no fiber of the thread runs while another one is at the maps
  | .scan => if s.shared.thread = .walking then none else s.scanTurn
  | .aggregate i =>
      if s.shared.thread = .none then (s.shared.taken[i]?).bind (s.aggregateTurn cfg i) else none
  | .walk =>
      if s.shared.thread = .none then some { s with shared := s.shared.access .walking } else none
  | .walked =>
      if s.shared.thread = .walking then
        some { s with shared := { s.shared with thread := .none } }
      else none

/-- The metrics of a process. -/
def aggregationMachine (cfg : MeterConfig D) : Machine (Aggregation D) AggregationAction where
  init := {}
  step := aggregationStep cfg

end Steps

/-! ## §3. What must hold of the meters. -/

section Spec

variable {D : Type} [Field D]

/-- What a fiber has taken and not yet added. -/
def MeterPc.held : MeterPc → UInt64
  | .holding c => c
  | _ => 0

/-- The samples of a meter as numbers. -/
def Aggregation.samples (s : Aggregation D) (id : MetricId) : List D :=
  (s.turns id).map (fun c => (c.toNat : D))

/-- The rates are the averages of the samples. -/
structure RatesOk (cfg : MeterConfig D) (m : Meter D) (samples : List D) : Prop where
  rate1min : m.rate1min = ewmas cfg.alpha1min 0 samples
  rate5min : m.rate5min = ewmas cfg.alpha5min 0 samples
  rate15min : m.rate15min = ewmas cfg.alpha15min 0 samples
  rate1hr : m.rate1hr = ewmas cfg.alpha1hr 0 samples

/-- The invariant of the metrics.  Objects are numbered as they are made, so
fiber `i` is that of metric `i`. -/
structure AggregationOk (cfg : MeterConfig D) (s : Aggregation D) : Prop where
  served : s.shared.Served
  fresh : ∀ i, s.shared.taken.length ≤ i → s.pc i = .testing
  conserved : ∀ id, (s.meters id).counterTotal + (s.pc id).held + (s.meters id).counter1s =
    s.added id
  total : ∀ id, (s.meters id).counterTotal = (s.turns id).sum
  rates : ∀ id, RatesOk cfg (s.meters id) (s.samples id)

end Spec

/-! ## §4. The steps keep the invariant. -/

section Proofs

variable {D : Type} [Field D] {cfg : MeterConfig D} {s t : Aggregation D}

/-- **Fiber `i` aggregates metric `i`.** -/
theorem AggregationOk.fiber_eq (h : AggregationOk cfg s) {i : Nat} {id : MetricId}
    (hi : s.shared.taken[i]? = some id) : id = i := by
  have hlt := (List.getElem?_eq_some_iff.mp hi).1
  have hserved : _ = List.range s.shared.registry.next := h.served
  have hrange : (List.range s.shared.registry.next)[i]? = some id := by
    rw [← hserved, List.getElem?_append_left hlt]
    exact hi
  rw [List.getElem?_eq_some_iff] at hrange
  obtain ⟨hlt', hid⟩ := hrange
  rw [List.getElem_range] at hid
  exact hid.symm

/-- The fibers that are still to come are not that of metric `i`. -/
theorem AggregationOk.fresh_update (h : AggregationOk cfg s) {i : Nat} (hlt : i < s.shared.taken.length)
    (pc : MeterPc) (j : Nat) (hj : s.shared.taken.length ≤ j) :
    Function.update s.pc i pc j = .testing := by
  have hne : j ≠ i := Nat.ne_of_gt (Nat.lt_of_lt_of_le hlt hj)
  rw [Function.update_of_ne hne]
  exact h.fresh j hj

/-- The count of a second is neither in the total nor in the rates. -/
theorem AggregationOk.counted (h : AggregationOk cfg s) (id : MetricId) (c : UInt64) (id' : MetricId) :
    (Function.update s.meters id { s.meters id with counter1s := c } id').counterTotal =
        (s.turns id').sum ∧
      RatesOk cfg (Function.update s.meters id { s.meters id with counter1s := c } id') (s.samples id') := by
  by_cases hid : id' = id
  · rw [hid, Function.update_self]
    exact ⟨h.total id, ⟨(h.rates id).1, (h.rates id).2, (h.rates id).3, (h.rates id).4⟩⟩
  · rw [Function.update_of_ne hid]
    exact ⟨h.total id', h.rates id'⟩

/-- A fiber moves on without counts. -/
theorem AggregationOk.setPc (h : AggregationOk cfg s) {i : Nat} (hlt : i < s.shared.taken.length)
    {pc : MeterPc} (hold : (s.pc i).held = 0) (hnew : pc.held = 0) :
    AggregationOk cfg (s.setPc i pc) where
  served := h.served
  fresh := h.fresh_update hlt pc
  conserved := by
    intro id
    show _ + (Function.update s.pc i pc id).held + _ = _
    by_cases hid : id = i
    · have hsame := h.conserved id
      rw [hid, hold] at hsame
      rw [hid, Function.update_self, hnew]
      exact hsame
    · rw [Function.update_of_ne hid]
      exact h.conserved id
  total := h.total
  rates := h.rates

/-- **The exchange**: the count moves from the meter to the fiber. -/
theorem AggregationOk.take (h : AggregationOk cfg s) {id : MetricId} (hlt : id < s.shared.taken.length)
    (hpc : s.pc id = .sleeping) :
    AggregationOk cfg ((s.setPc id (.holding (s.meters id).counter1s)).setMeter id
      { s.meters id with counter1s := 0 }) where
  served := h.served
  fresh := h.fresh_update hlt _
  conserved := by
    intro id'
    show (Function.update s.meters id _ id').counterTotal + (Function.update s.pc id _ id').held +
      (Function.update s.meters id _ id').counter1s = s.added id'
    by_cases hid : id' = id
    · have hsame := h.conserved id
      rw [hpc] at hsame
      rw [hid, Function.update_self, Function.update_self]
      rw [← hsame]
      show (s.meters id).counterTotal + (s.meters id).counter1s + 0 =
        (s.meters id).counterTotal + 0 + (s.meters id).counter1s
      rw [UInt64.add_zero, UInt64.add_zero]
    · rw [Function.update_of_ne hid, Function.update_of_ne hid]
      exact h.conserved id'
  total := fun id' => (h.counted id _ id').1
  rates := fun id' => (h.counted id _ id').2

/-- One more sample. -/
theorem RatesOk.aggregate {m : Meter D} {samples : List D} (h : RatesOk cfg m samples) (c : UInt64) :
    RatesOk cfg (m.aggregate cfg c) (samples ++ [(c.toNat : D)]) where
  rate1min := by
    rw [ewmas_append, ← h.rate1min]
    rfl
  rate5min := by
    rw [ewmas_append, ← h.rate5min]
    rfl
  rate15min := by
    rw [ewmas_append, ← h.rate15min]
    rfl
  rate1hr := by
    rw [ewmas_append, ← h.rate1hr]
    rfl

/-- **The second half of `aggregate`**: the fiber adds what it has taken. -/
theorem AggregationOk.add (h : AggregationOk cfg s) {id : MetricId} (hlt : id < s.shared.taken.length)
    {c : UInt64} (hpc : s.pc id = .holding c) :
    AggregationOk cfg { (s.setPc id .testing).setMeter id ((s.meters id).aggregate cfg c) with
      turns := Function.update s.turns id (s.turns id ++ [c]) } where
  served := h.served
  fresh := h.fresh_update hlt _
  conserved := by
    intro id'
    show (Function.update s.meters id _ id').counterTotal + (Function.update s.pc id _ id').held +
      (Function.update s.meters id _ id').counter1s = s.added id'
    by_cases hid : id' = id
    · have hsame := h.conserved id
      rw [hpc] at hsame
      rw [hid, Function.update_self, Function.update_self, ← hsame]
      show (s.meters id).counterTotal + c + 0 + (s.meters id).counter1s =
        (s.meters id).counterTotal + c + (s.meters id).counter1s
      rw [UInt64.add_zero]
    · rw [Function.update_of_ne hid, Function.update_of_ne hid]
      exact h.conserved id'
  total := by
    intro id'
    show (Function.update s.meters id _ id').counterTotal = (Function.update s.turns id _ id').sum
    by_cases hid : id' = id
    · rw [hid, Function.update_self, Function.update_self, List.sum_append, ← h.total id]
      show (s.meters id).counterTotal + c = (s.meters id).counterTotal + [c].sum
      rw [List.sum_singleton]
    · rw [Function.update_of_ne hid, Function.update_of_ne hid]
      exact h.total id'
  rates := by
    intro id'
    show RatesOk cfg (Function.update s.meters id _ id')
      ((Function.update s.turns id _ id').map (fun c => (c.toNat : D)))
    by_cases hid : id' = id
    · rw [hid, Function.update_self, Function.update_self, List.map_append]
      exact (h.rates id).aggregate c
    · rw [Function.update_of_ne hid, Function.update_of_ne hid]
      exact h.rates id'

/-- **An increment**, between any two halves of an `aggregate`. -/
theorem AggregationOk.increment (h : AggregationOk cfg s) (id : MetricId) (n : UInt64) :
    AggregationOk cfg { s.setMeter id
        { s.meters id with counter1s := (s.meters id).counter1s + n } with
      added := Function.update s.added id (s.added id + n) } where
  served := h.served
  fresh := h.fresh
  conserved := by
    intro id'
    show (Function.update s.meters id _ id').counterTotal + (s.pc id').held +
      (Function.update s.meters id _ id').counter1s = Function.update s.added id _ id'
    by_cases hid : id' = id
    · rw [hid, Function.update_self, Function.update_self, ← h.conserved id]
      show (s.meters id).counterTotal + (s.pc id).held + ((s.meters id).counter1s + n) = _
      rw [UInt64.add_assoc _ _ n]
    · rw [Function.update_of_ne hid, Function.update_of_ne hid]
      exact h.conserved id'
  total := fun id' => (h.counted id _ id').1
  rates := fun id' => (h.counted id _ id').2

/-- **A turn of an aggregation fiber.** -/
theorem AggregationOk.aggregateTurn (h : AggregationOk cfg s) {i : Nat} {id : MetricId}
    (hi : s.shared.taken[i]? = some id) (hstep : s.aggregateTurn cfg i id = some t) :
    AggregationOk cfg t := by
  have hlt := (List.getElem?_eq_some_iff.mp hi).1
  obtain rfl := h.fiber_eq hi
  unfold Aggregation.aggregateTurn at hstep
  cases hpc : s.pc id with
  | testing =>
      simp only [hpc, Option.some.injEq] at hstep
      subst hstep
      refine h.setPc hlt (by rw [hpc]; rfl) ?_
      split <;> rfl
  | sleeping =>
      simp only [hpc] at hstep
      split at hstep
      · obtain rfl := Option.some.inj hstep
        exact h.take hlt hpc
      · obtain rfl := Option.some.inj hstep
        exact h.setPc hlt (by rw [hpc]; rfl) rfl
  | holding c =>
      simp only [hpc, Option.some.injEq] at hstep
      subst hstep
      exact h.add hlt hpc
  | ended =>
      simp only [hpc, reduceCtorEq] at hstep

/-- The maps change, and the fibers there are stay. -/
theorem AggregationOk.share (h : AggregationOk cfg s) {shared : SharedRegistry}
    (hserved : shared.Served) (hgrown : s.shared.taken.length ≤ shared.taken.length) (scan : ScanPc) :
    AggregationOk cfg { s with shared := shared, scan := scan } :=
  ⟨hserved, fun i hi => h.fresh i (Nat.le_trans hgrown hi), h.conserved, h.total, h.rates⟩

/-- **A turn of the fiber that looks for new metrics.** -/
theorem AggregationOk.scanTurn (h : AggregationOk cfg s) (hstep : s.scanTurn = some t)
    (hsafe : t.shared.raced = false) : AggregationOk cfg t := by
  have hsame : ∀ scan, AggregationOk cfg { s with scan := scan } :=
    fun scan => h.share h.served le_rfl scan
  unfold Aggregation.scanTurn at hstep
  split at hstep
  · exact Option.some.inj hstep ▸ hsame _
  · exact Option.some.inj hstep ▸ hsame _
  · obtain rfl := Option.some.inj hstep
    have hserved : (s.shared.access .popping).Served := by
      rw [SharedRegistry.access_eq hsafe]
      exact h.served
    refine h.share hserved ?_ _
    rw [SharedRegistry.access_eq hsafe]
  · obtain rfl := Option.some.inj hstep
    refine h.share (SharedRegistry.served_take h.served) ?_ _
    unfold SharedRegistry.take
    split
    · show _ ≤ (s.shared.taken ++ [_]).length
      rw [List.length_append]
      exact Nat.le_add_right _ _
    · exact le_rfl
  · cases hstep

/-- **Every action keeps the invariant**, but for a race. -/
theorem aggregation_step {a : AggregationAction} (h : AggregationOk cfg s)
    (hstep : aggregationStep cfg s a = some t) (hsafe : t.shared.raced = false) :
    AggregationOk cfg t := by
  unfold aggregationStep at hstep
  split at hstep
  · cases hstep
  cases a with
  | call a =>
      obtain ⟨shared, hcall, rfl⟩ := Option.map_eq_some_iff.mp hstep
      refine h.share (SharedRegistry.served_call h.served hcall hsafe) ?_ s.scan
      rw [(SharedRegistry.callStep_frame hcall).1]
  | increment id n =>
      simp only at hstep
      split at hstep
      · exact Option.some.inj hstep ▸ h.increment id n
      · cases hstep
  | stop =>
      obtain rfl := Option.some.inj hstep
      exact ⟨h.served, h.fresh, h.conserved, h.total, h.rates⟩
  | scan =>
      simp only at hstep
      split at hstep
      · cases hstep
      · exact h.scanTurn hstep hsafe
  | aggregate i =>
      simp only at hstep
      split at hstep
      · obtain ⟨id, hi, hturn⟩ := Option.bind_eq_some_iff.mp hstep
        exact h.aggregateTurn hi hturn
      · cases hstep
  | walk =>
      simp only at hstep
      split at hstep
      · obtain rfl := Option.some.inj hstep
        have hserved : (s.shared.access .walking).Served := by
          rw [SharedRegistry.access_eq hsafe]
          exact h.served
        refine h.share hserved ?_ s.scan
        rw [SharedRegistry.access_eq hsafe]
      · cases hstep
  | walked =>
      simp only at hstep
      split at hstep
      · obtain rfl := Option.some.inj hstep
        have hserved : SharedRegistry.Served { s.shared with thread := .none } := h.served
        exact h.share hserved le_rfl s.scan
      · cases hstep

/-- Behind a race there is no step. -/
theorem safe_of_step {a : AggregationAction} (hstep : aggregationStep cfg s a = some t) :
    s.shared.raced = false := by
  unfold aggregationStep at hstep
  split at hstep
  · cases hstep
  · exact Bool.eq_false_iff.mpr ‹_›

theorem aggregationOk_reach (h : (aggregationMachine cfg).Reach s) (hsafe : s.shared.raced = false) :
    AggregationOk cfg s := by
  have hinv : s.shared.raced = false → AggregationOk cfg s := by
    refine h.invariant (I := fun s => s.shared.raced = false → AggregationOk cfg s) ?_ ?_
    · exact fun _ => ⟨rfl, fun _ _ => rfl, fun _ => rfl, fun _ => rfl, fun _ => ⟨rfl, rfl, rfl, rfl⟩⟩
    · exact fun _ _ _ hs _ hstep ht => aggregation_step (hs (safe_of_step hstep)) hstep ht
  exact hinv hsafe

/-- **EVERY METRIC IS AGGREGATED, AND EVERY INCREMENT ONCE.**  In any interleaving
of calls, increments and turns of the fibers in which no call meets another
access to the maps, the metric objects that were made are those with an
aggregation fiber, one each, and those queued for one; and what a meter was
given is in its total, in the hands of its fiber, or still to be taken, modulo
2^64. -/
theorem meter_counts_once (h : (aggregationMachine cfg).Reach s) (hsafe : s.shared.raced = false) :
    s.shared.taken ++ s.shared.registry.newMetrics = List.range s.shared.registry.next ∧
    ∀ id, (s.meters id).counterTotal + (s.pc id).held + (s.meters id).counter1s = s.added id ∧
      (s.meters id).counterTotal = (s.turns id).sum := by
  have hok := aggregationOk_reach h hsafe
  exact ⟨hok.served, fun id => ⟨hok.conserved id, hok.total id⟩⟩

/-- A meter that is incremented between the two halves of an `aggregate`, while
a timer is being registered. -/
theorem meter_counts_once_between :
    ∃ s, (aggregationMachine (⟨1, 1, 1, 1⟩ : MeterConfig ℚ)).run
        [.call (.enter (.register .meter [0])), .call (.found 0), .call (.insert 0),
        .call (.inserted 0), .scan, .scan, .scan, .scan, .increment 0 3, .aggregate 0, .aggregate 0,
        .call (.enter (.register .timer [1])), .increment 0 4, .aggregate 0] = some s ∧
      s.shared.taken ++ s.shared.registry.newMetrics = List.range s.shared.registry.next ∧
      ∀ id, (s.meters id).counterTotal + (s.pc id).held + (s.meters id).counter1s = s.added id ∧
        (s.meters id).counterTotal = (s.turns id).sum := by
  obtain ⟨s, hs, hsafe⟩ : ∃ s, (aggregationMachine (⟨1, 1, 1, 1⟩ : MeterConfig ℚ)).run
      [.call (.enter (.register .meter [0])), .call (.found 0), .call (.insert 0),
      .call (.inserted 0), .scan, .scan, .scan, .scan, .increment 0 3, .aggregate 0, .aggregate 0,
      .call (.enter (.register .timer [1])), .increment 0 4, .aggregate 0] = some s ∧
        s.shared.raced = false := ⟨_, rfl, rfl⟩
  exact ⟨s, hs, meter_counts_once (Machine.reach_iff_run.mpr ⟨_, hs⟩) hsafe⟩

/-- The turns of a meter are recorded one behind the other. -/
theorem turns_step {a : AggregationAction} (hstep : aggregationStep cfg s a = some t)
    (id : MetricId) : s.turns id <+: t.turns id := by
  unfold aggregationStep at hstep
  split at hstep
  · cases hstep
  cases a with
  | call a =>
      obtain ⟨shared, -, rfl⟩ := Option.map_eq_some_iff.mp hstep
      exact List.prefix_rfl
  | stop => exact Option.some.inj hstep ▸ List.prefix_rfl
  | increment id n | walk | walked =>
      simp only at hstep
      split at hstep
      · exact Option.some.inj hstep ▸ List.prefix_rfl
      · cases hstep
  | scan =>
      simp only [Aggregation.scanTurn] at hstep
      (repeat' split at hstep) <;> cases hstep <;> exact List.prefix_rfl
  | aggregate i =>
      simp only at hstep
      split at hstep
      · obtain ⟨id', -, hturn⟩ := Option.bind_eq_some_iff.mp hstep
        unfold Aggregation.aggregateTurn at hturn
        split at hturn
        · exact Option.some.inj hturn ▸ List.prefix_rfl
        · split at hturn <;> exact Option.some.inj hturn ▸ List.prefix_rfl
        · obtain rfl := Option.some.inj hturn
          show _ <+: Function.update s.turns id' _ id
          by_cases hid : id = id'
          · rw [hid, Function.update_self]
            exact List.prefix_append _ _
          · rw [Function.update_of_ne hid]
        · cases hturn
      · cases hstep

theorem turns_run {as : List AggregationAction}
    (hrun : (aggregationMachine cfg).runFrom s as = some t) (id : MetricId) :
    s.turns id <+: t.turns id := by
  induction as generalizing s with
  | nil => exact Option.some.inj hrun ▸ List.prefix_rfl
  | cons a as ih =>
      obtain ⟨u, hstep, hrest⟩ := Option.bind_eq_some_iff.mp hrun
      exact (turns_step hstep id).trans (ih hrest)

/-- A run that ends without a race had none. -/
theorem safe_of_run {as : List AggregationAction}
    (hrun : (aggregationMachine cfg).runFrom s as = some t) (hsafe : t.shared.raced = false) :
    s.shared.raced = false := by
  cases as with
  | nil => exact Option.some.inj hrun ▸ hsafe
  | cons a as =>
      obtain ⟨u, hstep, -⟩ := Option.bind_eq_some_iff.mp hrun
      exact safe_of_step hstep

/-! ### The fiber of a meter goes round. -/

/-- The fiber of the meter is at its loop test, and the meter has no count. -/
structure AtRest (s : Aggregation D) (id : MetricId) : Prop where
  safe : s.shared.raced = false
  running : s.stop = false
  idle : s.shared.thread = .none
  taken : s.shared.taken[id]? = some id
  made : id < s.shared.registry.next
  kind : s.shared.registry.kind id = .meter
  pc : s.pc id = .testing
  count : (s.meters id).counter1s = 0

/-- An increment and a turn of the fiber's loop. -/
def meterRound (id : MetricId) (c : UInt64) : List AggregationAction :=
  [.increment id c, .aggregate id, .aggregate id, .aggregate id]

/-- **In one turn of its loop** the fiber samples what the meter was given. -/
theorem run_meterRound (cfg : MeterConfig D) {id : MetricId} (h : AtRest s id) (c : UInt64) :
    ∃ t, (aggregationMachine cfg).runFrom s (meterRound id c) = some t ∧ AtRest t id ∧
      t.turns id = s.turns id ++ [c] := by
  obtain ⟨hsafe, hrunning, hidle, htaken, hmade, hkind, hpc, hcount⟩ := h
  let t : Aggregation D := { s with
    pc := Function.update s.pc id .testing
    meters := Function.update s.meters id ((s.meters id).aggregate cfg c)
    added := Function.update s.added id (s.added id + c)
    turns := Function.update s.turns id (s.turns id ++ [c]) }
  have hmeter : { s.meters id with counter1s := 0 } = s.meters id := by rw [← hcount]
  have hrun : (aggregationMachine cfg).runFrom s (meterRound id c) = some t := by
    simp only [meterRound, Machine.runFrom_cons, Machine.runFrom_nil, aggregationMachine,
      aggregationStep, Aggregation.aggregateTurn, Aggregation.setPc, Aggregation.setMeter, hsafe,
      hrunning, hidle, htaken, hmade, hkind, hpc, hcount, Function.update_self, Function.update_idem,
      Bool.false_eq_true, if_false, if_true, and_self, Option.bind_some, UInt64.zero_add, hmeter, t]
  refine ⟨t, hrun, ⟨hsafe, hrunning, hidle, htaken, hmade, hkind, ?_, ?_⟩, ?_⟩
  · exact Function.update_self ..
  · show (Function.update s.meters id _ id).counter1s = 0
    rw [Function.update_self]
    exact hcount
  · exact Function.update_self ..

/-- **In several turns** it samples what the meter was given in each. -/
theorem run_meterRounds (cfg : MeterConfig D) {id : MetricId} (h : AtRest s id) (cs : List UInt64) :
    ∃ t, (aggregationMachine cfg).runFrom s (cs.flatMap (meterRound id)) = some t ∧ AtRest t id ∧
      t.turns id = s.turns id ++ cs := by
  induction cs generalizing s with
  | nil => exact ⟨s, rfl, h, (List.append_nil _).symm⟩
  | cons c cs ih =>
      obtain ⟨u, hround, hu, hturn⟩ := run_meterRound cfg h c
      obtain ⟨t, hrest, ht, hturns⟩ := ih hu
      refine ⟨t, ?_, ht, ?_⟩
      · rw [List.flatMap_cons, Machine.runFrom_append, hround]
        exact hrest
      · rw [hturns, hturn, List.append_assoc]
        rfl

end Proofs

/-! ## §5. The intervals of the rates. -/

/-- The intervals over which a meter has a rate. -/
inductive RateInterval where
  | min1
  | min5
  | min15
  | hr1
  deriving DecidableEq

def RateInterval.secs : RateInterval → Nat
  | .min1 => 60
  | .min5 => 5 * 60
  | .min15 => 15 * 60
  | .hr1 => 60 * 60

/-- `rate_1min` and its siblings. -/
def Meter.rate {D : Type} [Zero D] (m : Meter D) : RateInterval → D
  | .min1 => m.rate1min
  | .min5 => m.rate5min
  | .min15 => m.rate15min
  | .hr1 => m.rate1hr

/-- `meter::alpha`, over the reals. -/
noncomputable def meterAlpha (secs : Nat) : ℝ := 1 - Real.exp (Real.log 0.005 / secs)

/-- The alphas of the ctor. -/
noncomputable def meterConfig : MeterConfig ℝ where
  alpha1min := meterAlpha RateInterval.min1.secs
  alpha5min := meterAlpha RateInterval.min5.secs
  alpha15min := meterAlpha RateInterval.min15.secs
  alpha1hr := meterAlpha RateInterval.hr1.secs

section Intervals

variable {s t : Aggregation ℝ}

theorem RatesOk.rate {m : Meter ℝ} {samples : List ℝ} (h : RatesOk meterConfig m samples)
    (w : RateInterval) : m.rate w = ewmas (meterAlpha w.secs) 0 samples := by
  cases w with
  | min1 => exact h.rate1min
  | min5 => exact h.rate5min
  | min15 => exact h.rate15min
  | hr1 => exact h.rate1hr

/-- **After an interval 0.5 % is left** of the weight of a sample. -/
theorem one_sub_meterAlpha_pow {secs : Nat} (h : secs ≠ 0) : (1 - meterAlpha secs) ^ secs = 0.005 := by
  have hsecs : (secs : ℝ) ≠ 0 := Nat.cast_ne_zero.mpr h
  unfold meterAlpha
  rw [sub_sub_cancel, ← Real.exp_nat_mul, mul_div_cancel₀ _ hsecs, Real.exp_log (by norm_num)]

theorem meterAlpha_mem (secs : Nat) : 0 ≤ meterAlpha secs ∧ meterAlpha secs ≤ 1 := by
  have hlog : Real.log 0.005 / secs ≤ 0 :=
    div_nonpos_of_nonpos_of_nonneg (Real.log_nonpos (by norm_num) (by norm_num)) secs.cast_nonneg
  have hle : Real.exp (Real.log 0.005 / secs) ≤ 1 := Real.exp_le_one_iff.mpr hlog
  have hpos := Real.exp_pos (Real.log 0.005 / secs)
  unfold meterAlpha
  constructor <;> linarith

theorem RateInterval.secs_ne_zero (w : RateInterval) : w.secs ≠ 0 := by
  cases w <;> decide

/-- **A RATE IS THAT OF ITS INTERVAL.**  However the fibers run on from a state,
a meter takes more samples, and its rate is the share that is left of the rate
before plus what these samples make up.  Once there are as many as the interval
has seconds, 0.5 % is left and they make up 99.5 %.  A rate is never outside
what was sampled. -/
theorem meter_rate_window {as : List AggregationAction}
    (h : (aggregationMachine meterConfig).Reach s)
    (hrun : (aggregationMachine meterConfig).runFrom s as = some t)
    (hsafe : t.shared.raced = false) (id : MetricId) :
    ∃ recent, t.turns id = s.turns id ++ recent ∧ ∀ w : RateInterval,
      let part := ewmas (meterAlpha w.secs) 0 (recent.map (fun c => (c.toNat : ℝ)))
      (t.meters id).rate w = (1 - meterAlpha w.secs) ^ recent.length * (s.meters id).rate w + part ∧
      (recent.length = w.secs →
        (t.meters id).rate w = 0.005 * (s.meters id).rate w + part ∧
        ∀ lo hi : ℝ, (∀ c ∈ recent, lo ≤ c.toNat ∧ c.toNat ≤ hi) →
          0.995 * lo ≤ part ∧ part ≤ 0.995 * hi) ∧
      ∀ hi : ℝ, 0 ≤ hi → (∀ c ∈ t.turns id, (c.toNat : ℝ) ≤ hi) →
        0 ≤ (t.meters id).rate w ∧ (t.meters id).rate w ≤ hi := by
  have hs := (aggregationOk_reach h (safe_of_run hrun hsafe)).rates id
  have ht := (aggregationOk_reach (h.runFrom hrun) hsafe).rates id
  obtain ⟨recent, hturns⟩ := turns_run hrun id
  refine ⟨recent, hturns.symm, fun w => ?_⟩
  intro part
  have hrate : (t.meters id).rate w =
      (1 - meterAlpha w.secs) ^ recent.length * (s.meters id).rate w + part := by
    have hsamples : t.samples id = s.samples id ++ recent.map (fun c => (c.toNat : ℝ)) := by
      unfold Aggregation.samples
      rw [← hturns, List.map_append]
    rw [ht.rate, hsamples, ewmas_append, ← hs.rate, ewmas_eq, List.length_map]
  refine ⟨hrate, ?_, ?_⟩
  · intro hlength
    rw [hlength, one_sub_meterAlpha_pow w.secs_ne_zero] at hrate
    refine ⟨hrate, fun lo hi hbounds => ?_⟩
    have hmem : ∀ c ∈ recent.map (fun c => (c.toNat : ℝ)), lo ≤ c ∧ c ≤ hi := by
      intro c hc
      obtain ⟨n, hn, rfl⟩ := List.mem_map.mp hc
      exact hbounds n hn
    -- what the samples make up is their average from 0
    have hwindow := ewmas_window (meterAlpha_mem w.secs).1 (meterAlpha_mem w.secs).2 0 hmem
    rw [List.length_map, hlength, one_sub_meterAlpha_pow w.secs_ne_zero] at hwindow
    constructor
    · linarith [hwindow.1]
    · linarith [hwindow.2]
  · intro hi hhi hbound
    rw [ht.rate]
    refine ewmas_mem (meterAlpha_mem w.secs).1 (meterAlpha_mem w.secs).2 ⟨le_rfl, hhi⟩ ?_
    intro c hc
    obtain ⟨n, hn, rfl⟩ := List.mem_map.mp hc
    exact ⟨Nat.cast_nonneg _, hbound n hn⟩

/-- The registration of a meter, and the start of its fiber. -/
def newMeter : List AggregationAction :=
  [.call (.enter (.register .meter [0])), .call (.found 0), .call (.insert 0), .call (.inserted 0),
    .scan, .scan, .scan, .scan]

/-- **A minute of a new meter** that is incremented by 3 in every second. -/
theorem meter_rate_window_new :
    ∃ s t, (aggregationMachine meterConfig).run newMeter = some s ∧
      (aggregationMachine meterConfig).runFrom s
        ((List.replicate 60 3).flatMap (meterRound 0)) = some t ∧
      t.turns 0 = s.turns 0 ++ List.replicate 60 3 ∧
      (t.meters 0).rate .min1 = 2.985 ∧
      ∃ recent, t.turns 0 = s.turns 0 ++ recent ∧ ∀ w : RateInterval,
        let part := ewmas (meterAlpha w.secs) 0 (recent.map (fun c => (c.toNat : ℝ)))
        (t.meters 0).rate w = (1 - meterAlpha w.secs) ^ recent.length * (s.meters 0).rate w + part ∧
        (recent.length = w.secs →
          (t.meters 0).rate w = 0.005 * (s.meters 0).rate w + part ∧
          ∀ lo hi : ℝ, (∀ c ∈ recent, lo ≤ c.toNat ∧ c.toNat ≤ hi) →
            0.995 * lo ≤ part ∧ part ≤ 0.995 * hi) ∧
        ∀ hi : ℝ, 0 ≤ hi → (∀ c ∈ t.turns 0, (c.toNat : ℝ) ≤ hi) →
          0 ≤ (t.meters 0).rate w ∧ (t.meters 0).rate w ≤ hi := by
  obtain ⟨s, hs, hrest, hzero⟩ : ∃ s, (aggregationMachine meterConfig).run newMeter = some s ∧
      AtRest s 0 ∧ (s.meters 0).rate .min1 = 0 :=
    ⟨_, rfl, ⟨rfl, rfl, rfl, rfl, Nat.zero_lt_one, rfl, rfl, rfl⟩, rfl⟩
  obtain ⟨t, ht, hsafe, hturns⟩ := run_meterRounds meterConfig hrest (List.replicate 60 3)
  have hwindow := meter_rate_window (Machine.reach_iff_run.mpr ⟨_, hs⟩) ht hsafe.safe 0
  refine ⟨s, t, hs, ht, hturns, ?_, hwindow⟩
  obtain ⟨recent, hrecent, hrates⟩ := hwindow
  obtain rfl : recent = List.replicate 60 3 := List.append_cancel_left (hrecent.symm.trans hturns)
  obtain ⟨-, hminute, -⟩ := hrates .min1
  obtain ⟨hrate, hpart⟩ := hminute List.length_replicate
  have hthree : ∀ c ∈ List.replicate 60 (3 : UInt64), (3 : ℝ) ≤ c.toNat ∧ (c.toNat : ℝ) ≤ 3 := by
    intro c hc
    rw [List.eq_of_mem_replicate hc, show ((3 : UInt64).toNat : ℝ) = 3 from Nat.cast_ofNat]
    exact ⟨le_rfl, le_rfl⟩
  rw [hrate, hzero]
  linarith [hpart 3 3 hthree]

end Intervals

end Petrel
