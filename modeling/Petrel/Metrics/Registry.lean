/-
  Petrel.Metrics.Registry — the registry of named metrics.

  A metric object has one of three types.  `get_metric<T>` casts the object
  of a name to `T` and yields null where it has another type;
  `register_metric<T>` then makes a new object and puts it under the name, so
  that what it returns is never null.  The object that was there is detached:
  its holders go on counting on it, and nobody reports it.

  Main results:
    * `count_objects`       — objects are counted as their names are.
    * `registerMetric_held` — a registration of the type a name has keeps the
      objects of all names.
    * `registry_stable`     — registered metrics are stable if and only if no
      name is registered with two types.
-/

import Petrel.Core.Bytes

namespace Petrel

/-! ## §1. The registry. -/

/-- A metric object, numbered in the order of creation. -/
abbrev MetricId := Nat

inductive MetricKind where
  | counter
  | meter
  | timer
  deriving DecidableEq

/-- `registry`: the named metrics and the queue of the objects whose
aggregation the registry thread has yet to start. -/
structure Registry where
  metrics : Bytes → Option MetricId := fun _ => none
  newMetrics : List MetricId := []
  kind : MetricId → MetricKind := fun _ => .counter
  next : MetricId := 0

/-- `registry::get_metric<T>`. -/
def Registry.getMetric (r : Registry) (T : MetricKind) (name : Bytes) : Option MetricId :=
  -- `dynamic_pointer_cast`: null for an object of another type as well
  (r.metrics name).bind (fun id => if r.kind id = T then some id else none)

/-- `registry::register_metric<T>`. -/
def Registry.registerMetric (r : Registry) (T : MetricKind) (name : Bytes) : Registry × MetricId :=
  match r.getMetric T name with
  | some id => (r, id)
  | none =>
      -- an object of another type loses the name here
      ({ metrics := Function.update r.metrics name (some r.next)
         newMetrics := r.newMetrics ++ [r.next]
         kind := Function.update r.kind r.next T
         next := r.next + 1 }, r.next)

/-- The object that `register_metric<T>` returns has the type `T` and is the
one under the name. -/
theorem getMetric_registerMetric (r : Registry) (T : MetricKind) (name : Bytes) :
    (r.registerMetric T name).1.getMetric T name = some (r.registerMetric T name).2 := by
  unfold Registry.registerMetric
  cases h : r.getMetric T name with
  | some id => exact h
  | none => simp [Registry.getMetric]

/-! ## §2. Sequences of calls. -/

/-- A call of the registry. -/
inductive RegistryCall where
  | register (T : MetricKind) (name : Bytes)
  | get (T : MetricKind) (name : Bytes)

/-- What a call leaves and what it returns, none for null. -/
def Registry.call (r : Registry) : RegistryCall → Registry × Option MetricId
  | .register T name => ((r.registerMetric T name).1, some (r.registerMetric T name).2)
  | .get T name => (r, r.getMetric T name)

/-- The registry after a sequence of calls. -/
def Registry.after (calls : List RegistryCall) : Registry :=
  calls.foldl (fun r c => (r.call c).1) {}

/-- The object the log and the graphite output show under a name: both walk
over `m_metrics`. -/
def Registry.reported (r : Registry) (name : Bytes) : Option MetricId := r.metrics name

/-- The object of a registration is returned by every later registration and
lookup of the name with the type, and is the one that is reported. -/
def StableMetrics (calls : List RegistryCall) : Prop :=
  ∀ before T name later, before ++ .register T name :: later <+: calls →
    let m := ((Registry.after before).registerMetric T name).2
    let r := Registry.after (before ++ .register T name :: later)
    (r.registerMetric T name).2 = m ∧ r.getMetric T name = some m ∧ r.reported name = some m

/-- No name is registered with two types. -/
def OneTypeEach (calls : List RegistryCall) : Prop :=
  ∀ T T' name, .register T name ∈ calls → .register T' name ∈ calls → T = T'

/-! ## §3. What a call keeps. -/

theorem after_append (calls later : List RegistryCall) :
    Registry.after (calls ++ later) = later.foldl (fun r c => (r.call c).1) (Registry.after calls) := by
  unfold Registry.after
  rw [List.foldl_append]

/-- The objects that have a name are numbered below `next`. -/
def Registry.Numbered (r : Registry) : Prop := ∀ name id, r.metrics name = some id → id < r.next

theorem getMetric_eq_some_iff (r : Registry) (T : MetricKind) (name : Bytes) (id : MetricId) :
    r.getMetric T name = some id ↔ r.metrics name = some id ∧ r.kind id = T := by
  unfold Registry.getMetric
  rw [Option.bind_eq_some_iff]
  constructor
  · intro h
    obtain ⟨m, hm, hid⟩ := h
    by_cases hk : r.kind m = T
    · rw [if_pos hk] at hid
      obtain rfl := Option.some.inj hid
      exact ⟨hm, hk⟩
    · rw [if_neg hk] at hid
      cases hid
  · intro h
    exact ⟨id, h.1, if_pos h.2⟩

theorem registerMetric_numbered {r : Registry} (h : r.Numbered) (T : MetricKind) (name : Bytes) :
    (r.registerMetric T name).1.Numbered := by
  unfold Registry.registerMetric
  cases hget : r.getMetric T name with
  | some id => exact h
  | none =>
      intro q id hq
      show id < r.next + 1
      by_cases hname : q = name
      · rw [hname] at hq
        have hid : r.next = id := by simpa using hq
        rw [← hid]
        exact Nat.lt_succ_self r.next
      · -- the objects of the other names are older
        have hq' : r.metrics q = some id := by simpa [Function.update_of_ne hname] using hq
        exact Nat.lt_succ_of_lt (h q id hq')

/-- **A registration keeps the object of a name**, unless it registers this
name with another type. -/
theorem registerMetric_held {r : Registry} (hr : r.Numbered) {T : MetricKind} {name : Bytes}
    {id : MetricId} (h : r.getMetric T name = some id) {T' : MetricKind} {name' : Bytes}
    (hsame : name' = name → T' = T) : (r.registerMetric T' name').1.getMetric T name = some id := by
  unfold Registry.registerMetric
  cases hget : r.getMetric T' name' with
  | some m => exact h
  | none =>
      obtain ⟨hm, hk⟩ := (getMetric_eq_some_iff r T name id).mp h
      -- a registration of this name would have found its object
      have hne : name ≠ name' := by
        intro heq
        rw [hsame heq.symm, ← heq, h] at hget
        cases hget
      have hid : id ≠ r.next := Nat.ne_of_lt (hr name id hm)
      rw [getMetric_eq_some_iff]
      constructor
      · exact (Function.update_of_ne hne _ _).trans hm
      · exact (Function.update_of_ne hid _ _).trans hk

theorem numbered_foldl (calls : List RegistryCall) {r : Registry} (h : r.Numbered) :
    (calls.foldl (fun r c => (r.call c).1) r).Numbered := by
  induction calls generalizing r with
  | nil => exact h
  | cons c calls ih =>
      refine ih ?_
      cases c with
      | register T name => exact registerMetric_numbered h T name
      | get T name => exact h

theorem numbered_after (calls : List RegistryCall) : (Registry.after calls).Numbered :=
  numbered_foldl calls (fun _ _ h => nomatch h)

/-- What one call keeps, a sequence of calls keeps. -/
theorem foldl_held (later : List RegistryCall) {r : Registry} (hr : r.Numbered) {T : MetricKind}
    {name : Bytes} {id : MetricId} (h : r.getMetric T name = some id)
    (hsame : ∀ T', .register T' name ∈ later → T' = T) :
    (later.foldl (fun r c => (r.call c).1) r).getMetric T name = some id := by
  induction later generalizing r with
  | nil => exact h
  | cons c later ih =>
      have hlater : ∀ T', .register T' name ∈ later → T' = T :=
        fun T' h => hsame T' (List.mem_cons_of_mem _ h)
      cases c with
      | register T' name' =>
          refine ih (registerMetric_numbered hr T' name') ?_ hlater
          refine registerMetric_held hr h ?_
          intro heq
          exact hsame T' (by rw [heq]; exact List.mem_cons_self ..)
      | get T' name' => exact ih hr h hlater

/-- A registration finds the object that a lookup finds. -/
theorem registerMetric_of_getMetric {r : Registry} {T : MetricKind} {name : Bytes} {id : MetricId}
    (h : r.getMetric T name = some id) : (r.registerMetric T name).2 = id := by
  unfold Registry.registerMetric
  rw [h]

/-! ## §4. Stability. -/

/-- **REGISTERED METRICS ARE STABLE** in a sequence of calls if and only if
none of its names is registered with two types. -/
theorem registry_stable (calls : List RegistryCall) : StableMetrics calls ↔ OneTypeEach calls := by
  constructor
  · intro hstable
    -- of two registrations of a name the later one finds the object of the earlier one
    have horder : ∀ before T name later T', before ++ .register T name :: later ++ [.register T' name] <+: calls →
        T = T' := by
      intro before T name later T' hcalls
      have h := hstable before T name (later ++ [.register T' name]) (by
        rw [List.append_assoc] at hcalls
        exact hcalls)
      have h' := hstable (before ++ .register T name :: later) T' name [] hcalls
      have hlist : before ++ .register T name :: (later ++ [.register T' name]) =
          before ++ .register T name :: later ++ [.register T' name] := by simp
      rw [hlist] at h
      obtain ⟨-, hget, hreported⟩ := h
      obtain ⟨-, hget', hreported'⟩ := h'
      -- the same object is reported for both, and it has one type
      have hm := Option.some.inj (hreported.symm.trans hreported')
      rw [hm] at hget
      have hk := ((getMetric_eq_some_iff _ _ _ _).mp hget).2
      have hk' := ((getMetric_eq_some_iff _ _ _ _).mp hget').2
      exact hk.symm.trans hk'
    intro T T' name hT hT'
    obtain ⟨front, back, rfl⟩ := List.append_of_mem hT
    rcases List.mem_append.mp hT' with hfront | hback
    · obtain ⟨u, v, rfl⟩ := List.append_of_mem hfront
      refine (horder u T' name v T ?_).symm
      exact ⟨back, by simp⟩
    · rcases List.mem_cons.mp hback with heq | hback
      · cases heq
        rfl
      · obtain ⟨u, v, rfl⟩ := List.append_of_mem hback
        refine horder front T name u T' ?_
        exact ⟨v, by simp⟩
  · intro hone before T name later hcalls
    have hheld : (Registry.after (before ++ .register T name :: later)).getMetric T name =
        some ((Registry.after before).registerMetric T name).2 := by
      rw [after_append, List.foldl_cons]
      -- the calls behind the registration keep what it has returned
      refine foldl_held later (registerMetric_numbered (numbered_after before) T name)
        (getMetric_registerMetric _ T name) ?_
      intro T' hT'
      have hmem : ∀ c, c ∈ .register T name :: later → c ∈ calls :=
        fun c hc => hcalls.subset (List.mem_append_right _ hc)
      exact hone T' T name (hmem _ (List.mem_cons_of_mem _ hT')) (hmem _ (List.mem_cons_self ..))
    exact ⟨registerMetric_of_getMetric hheld, hheld, ((getMetric_eq_some_iff _ _ _ _).mp hheld).1⟩

/-- **A SECOND TYPE DETACHES A METRIC.**  The server registers a meter, a
handler registers a counter under its name: the meter is found no more, and
the counter is reported in its place. -/
theorem second_type_detaches :
    let name := bytes "errors"
    let r := Registry.after [.register .meter name]
    let r' := Registry.after [.register .meter name, .register .counter name]
    r.reported name = some 0 ∧ r'.reported name = some 1 ∧ r'.getMetric .meter name = none ∧
      ¬ ∀ calls, StableMetrics calls := by
  refine ⟨by decide, by decide, by decide, ?_⟩
  intro h
  have hstable := h [.register .meter (bytes "errors"), .register .counter (bytes "errors")]
    [] .meter (bytes "errors") [.register .counter (bytes "errors")] (List.prefix_refl _)
  exact absurd hstable.2.2 (by decide)

/-! ## §5. Names with a type each. -/

/-- The objects under the names are numbered and of the types that `kindOf`
gives the names, and no two names share one. -/
structure Registry.WellNamed (kindOf : Bytes → MetricKind) (r : Registry) : Prop where
  numbered : r.Numbered
  kind : ∀ name id, r.metrics name = some id → r.kind id = kindOf name
  injective : ∀ name name' id, r.metrics name = some id → r.metrics name' = some id → name = name'

section WellNamed

variable {kindOf : Bytes → MetricKind} {r : Registry}

theorem Registry.WellNamed.getMetric (h : r.WellNamed kindOf) {name : Bytes} {id : MetricId}
    (hname : r.metrics name = some id) : r.getMetric (kindOf name) name = some id :=
  (getMetric_eq_some_iff r _ name id).mpr ⟨hname, h.kind name id hname⟩

theorem registerMetric_wellNamed (h : r.WellNamed kindOf) {T : MetricKind} {name : Bytes}
    (hT : kindOf name = T) : (r.registerMetric T name).1.WellNamed kindOf := by
  subst hT
  refine ⟨registerMetric_numbered h.numbered _ name, ?_, ?_⟩
  all_goals unfold Registry.registerMetric
  · cases hget : r.getMetric (kindOf name) name with
    | some id => exact h.kind
    | none =>
        intro q id hq
        by_cases hname : q = name
        · rw [hname] at hq ⊢
          have hid : r.next = id := by simpa using hq
          rw [← hid]
          exact Function.update_self ..
        · have hq' : r.metrics q = some id := by simpa [Function.update_of_ne hname] using hq
          have hne : id ≠ r.next := Nat.ne_of_lt (h.numbered q id hq')
          exact (Function.update_of_ne hne _ _).trans (h.kind q id hq')
  · cases hget : r.getMetric (kindOf name) name with
    | some id => exact h.injective
    | none =>
        -- the new object has a number no other name has
        have hnew : ∀ q, Function.update r.metrics name (some r.next) q = some r.next → q = name := by
          intro q hq
          by_contra hname
          rw [Function.update_of_ne hname] at hq
          exact absurd (h.numbered q r.next hq) (Nat.lt_irrefl r.next)
        intro q q' id hq hq'
        by_cases hid : id = r.next
        · subst hid
          exact (hnew q hq).trans (hnew q' hq').symm
        · have hold : ∀ p, Function.update r.metrics name (some r.next) p = some id →
              r.metrics p = some id := by
            intro p hp
            by_cases hname : p = name
            · rw [hname, Function.update_self] at hp
              exact absurd (Option.some.inj hp).symm hid
            · rw [Function.update_of_ne hname] at hp
              exact hp
          exact h.injective q q' id (hold q hq) (hold q' hq')

/-- A registration puts its object under the name and keeps the others. -/
theorem registerMetric_metrics (r : Registry) (T : MetricKind) (name : Bytes) :
    (r.registerMetric T name).1.metrics name = some (r.registerMetric T name).2 :=
  ((getMetric_eq_some_iff _ _ _ _).mp (getMetric_registerMetric r T name)).1

theorem registerMetric_keeps (h : r.WellNamed kindOf) {T : MetricKind} {name : Bytes}
    (hT : kindOf name = T) {q : Bytes} {id : MetricId} (hq : r.metrics q = some id) :
    (r.registerMetric T name).1.metrics q = some id := by
  have hheld : (r.registerMetric T name).1.getMetric (kindOf q) q = some id := by
    refine registerMetric_held h.numbered (h.getMetric hq) ?_
    intro heq
    rw [← hT, heq]
  exact ((getMetric_eq_some_iff _ _ _ _).mp hheld).1

/-- **Objects are counted as their names are.** -/
theorem count_objects (h : r.WellNamed kindOf) {name : Bytes} {id : MetricId}
    (hname : r.metrics name = some id) (names : List Bytes) :
    (names.map r.metrics).reduceOption.count id = names.count name := by
  induction names with
  | nil => rfl
  | cons q names ih =>
      cases hq : r.metrics q with
      | none =>
          have hne : q ≠ name := by
            intro heq
            rw [heq, hname] at hq
            cases hq
          rw [List.map_cons, hq, List.reduceOption_cons_of_none, ih, List.count_cons_of_ne hne]
      | some m =>
          rw [List.map_cons, hq, List.reduceOption_cons_of_some, List.count_cons, List.count_cons, ih]
          -- the object is reported under this name only
          have hiff : (m == id) = (q == name) := by
            rw [Bool.eq_iff_iff, beq_iff_eq, beq_iff_eq]
            constructor
            · intro heq
              exact h.injective q name id (heq ▸ hq) hname
            · intro heq
              rw [heq, hname] at hq
              exact (Option.some.inj hq).symm
          rw [hiff]

end WellNamed

end Petrel
