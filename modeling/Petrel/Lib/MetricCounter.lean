/-
  Petrel.Lib.MetricCounter — what Lua counts.

  `increment` and `decrement` take a Lua integer into an `int`, which keeps 32
  of its bits, and hand it with its sign extended to a 64 bit counter that
  wraps.  The wrapping does no harm: a sum that is in range is the sum modulo
  2^64.  The narrowing does: what it loses is lost for the counter.

  Main results:
    * `counterInv_reach` — the value of a counter is what the code makes of
      the calls.
    * `exactVal_snoc_iff` — one more call is counted right if and only if its
      argument is an `int`.
    * `counter_exact_iff` — so is a whole run.
-/

import Petrel.Lib.Metric

namespace Petrel

open Framework

/-! ## §1. Conversions. -/

theorem ofInt_eq_ofInt_iff (a b : Int) :
    UInt64.ofInt a = UInt64.ofInt b ↔ a % 2 ^ 64 = b % 2 ^ 64 := by
  rw [← UInt64.toNat_inj]
  unfold UInt64.ofInt
  rw [UInt64.toNat_ofNat', UInt64.toNat_ofNat']
  omega

/-- The number that is left of `n` modulo an even `m`, with its sign. -/
theorem bmod_cases (n : Int) (m half : Nat) (hm : m = 2 * half) :
    (n.bmod m = n % m ∧ n % m < half) ∨ (n.bmod m = n % m - m ∧ half ≤ n % m) := by
  rw [Int.bmod_eq_emod]
  by_cases h : n % m ≥ ((m : Int) + 1) / 2
  · rw [if_pos h]
    exact .inr ⟨rfl, by omega⟩
  · rw [if_neg h]
    exact .inl ⟨by simp, by omega⟩

/-- A number that fits is pushed as it is. -/
theorem pushed_ofInt {n : Int} (h0 : 0 ≤ n) (h : n ≤ 2 ^ 53) :
    Metric.pushed (UInt64.ofInt n) = n := by
  unfold Metric.pushed UInt64.ofInt
  rw [UInt64.toNat_ofNat']
  have hcases := bmod_cases ((n % 2 ^ 64).toNat % 2 ^ 64 : Nat) (2 ^ 64) (2 ^ 63) rfl
  omega

/-- What is pushed tells the value. -/
theorem ofInt_pushed (v : UInt64) : UInt64.ofInt (Metric.pushed v) = v := by
  have hv : v.toNat < 2 ^ 64 := v.toNat_lt
  have hcases := bmod_cases v.toNat (2 ^ 64) (2 ^ 63) rfl
  rw [← UInt64.toNat_inj]
  unfold UInt64.ofInt Metric.pushed
  rw [UInt64.toNat_ofNat']
  omega

/-- **The narrowing is not undone** by the 64 bits of the counter. -/
theorem ofInt_toInt32_iff {n : Int} (hlow : -2 ^ 53 ≤ n) (hhigh : n ≤ 2 ^ 53) :
    UInt64.ofInt (toInt32 n) = UInt64.ofInt n ↔ -2 ^ 31 ≤ n ∧ n < 2 ^ 31 := by
  have hcases := bmod_cases n (2 ^ 32) (2 ^ 31) rfl
  rw [ofInt_eq_ofInt_iff]
  unfold toInt32
  omega

/-! ## §2. The exact value. -/

/-- What a call adds to the exact value. -/
def CounterOp.delta : CounterOp → Int
  | .increment n => n
  | .decrement n => -n
  | .reset => 0

/-- The argument of a call is an `int`. -/
def CounterOp.Fits : CounterOp → Prop
  | .increment n | .decrement n => -2 ^ 31 ≤ n ∧ n < 2 ^ 31
  | .reset => True

/-- The calls since the last reset. -/
def sinceReset (ops : List CounterOp) : List CounterOp :=
  ops.foldl (fun since op => if op = .reset then [] else since ++ [op]) []

/-- The increments less the decrements since the last reset. -/
def exactValue (ops : List CounterOp) : Int := ((sinceReset ops).map CounterOp.delta).sum

/-- The exact value has been in range since the last reset. -/
def InRange (ops : List CounterOp) : Prop :=
  ∀ p, p <+: sinceReset ops → 0 ≤ (p.map CounterOp.delta).sum ∧ (p.map CounterOp.delta).sum ≤ 2 ^ 53

/-- The value of a new counter after some calls. -/
def codeValue (ops : List CounterOp) : UInt64 := ops.foldl CounterOp.apply 0

/-- The value of the counter is the exact one, as far as that is in range. -/
def ExactVal (ops : List CounterOp) : Prop :=
  InRange ops → codeValue ops = UInt64.ofInt (exactValue ops)

theorem codeValue_snoc (ops : List CounterOp) (op : CounterOp) :
    codeValue (ops ++ [op]) = op.apply (codeValue ops) := by
  unfold codeValue
  rw [List.foldl_append]
  rfl

theorem sinceReset_snoc (ops : List CounterOp) (op : CounterOp) :
    sinceReset (ops ++ [op]) = if op = .reset then [] else sinceReset ops ++ [op] := by
  unfold sinceReset
  rw [List.foldl_append]
  rfl

theorem exactValue_snoc {op : CounterOp} (h : op ≠ .reset) (ops : List CounterOp) :
    exactValue (ops ++ [op]) = exactValue ops + op.delta := by
  unfold exactValue
  rw [sinceReset_snoc, if_neg h, List.map_append, List.sum_append]
  simp

theorem exactValue_reset (ops : List CounterOp) : exactValue (ops ++ [.reset]) = 0 := by
  unfold exactValue
  rw [sinceReset_snoc, if_pos rfl]
  rfl

theorem InRange.value {ops : List CounterOp} (h : InRange ops) :
    0 ≤ exactValue ops ∧ exactValue ops ≤ 2 ^ 53 := h _ (List.prefix_refl _)

theorem inRange_snoc {op : CounterOp} (hop : op ≠ .reset) (ops : List CounterOp) :
    InRange (ops ++ [op]) ↔
      InRange ops ∧ 0 ≤ exactValue (ops ++ [op]) ∧ exactValue (ops ++ [op]) ≤ 2 ^ 53 := by
  have hsince : sinceReset (ops ++ [op]) = sinceReset ops ++ [op] := by
    rw [sinceReset_snoc, if_neg hop]
  constructor
  · intro h
    refine ⟨?_, h.value⟩
    intro p hp
    refine h p (hp.trans ?_)
    rw [hsince]
    exact List.prefix_append _ _
  · rintro ⟨h, hvalue⟩ p hp
    rw [hsince] at hp
    rcases List.prefix_concat_iff.mp hp with rfl | hp
    · unfold exactValue at hvalue
      rw [hsince] at hvalue
      exact hvalue
    · exact h p hp

/-- **One more call**, after calls that have been counted right as far as they
were in range: it is counted right if and only if its argument is an `int`. -/
theorem exactVal_snoc_iff {ops : List CounterOp} (h : ExactVal ops) (op : CounterOp) :
    ExactVal (ops ++ [op]) ↔ (InRange (ops ++ [op]) → op.Fits) := by
  unfold ExactVal
  refine imp_congr_right fun hrange => ?_
  rw [codeValue_snoc]
  by_cases hreset : op = .reset
  · subst hreset
    rw [exactValue_reset]
    exact iff_of_true rfl trivial
  · obtain ⟨hbefore, hlow, hhigh⟩ := (inRange_snoc hreset ops).mp hrange
    obtain ⟨hlow₀, hhigh₀⟩ := hbefore.value
    rw [exactValue_snoc hreset] at hlow hhigh ⊢
    rw [h hbefore, UInt64.ofInt_add]
    -- both values are in range, and so is what is between them
    cases op with
    | increment n =>
        show _ + UInt64.ofInt (toInt32 n) = _ + UInt64.ofInt n ↔ -2 ^ 31 ≤ n ∧ n < 2 ^ 31
        rw [UInt64.add_right_inj]
        have hn : 0 ≤ exactValue ops + n ∧ exactValue ops + n ≤ 2 ^ 53 := ⟨hlow, hhigh⟩
        exact ofInt_toInt32_iff (by omega) (by omega)
    | decrement n =>
        show _ - UInt64.ofInt (toInt32 n) = _ + UInt64.ofInt (-n) ↔ -2 ^ 31 ≤ n ∧ n < 2 ^ 31
        rw [UInt64.ofInt_neg, ← UInt64.sub_eq_add_neg, UInt64.sub_right_inj]
        have hn : 0 ≤ exactValue ops + -n ∧ exactValue ops + -n ≤ 2 ^ 53 := ⟨hlow, hhigh⟩
        exact ofInt_toInt32_iff (by omega) (by omega)
    | reset => exact absurd rfl hreset

/-! ## §3. The counters of a process. -/

section Counter

variable {Num : Type} [LuaNumber Num] {s t : MetricWorld Num} {id : MetricId}

/-- What an action asks of a counter. -/
def MetricWorld.opOn (s : MetricWorld Num) (id : MetricId) : MetricAction Num → Option CounterOp
  | .call o m args _ =>
      if (s.objects o).metric = some id ∧ s.store.registry.kind id = .counter then m.counterOp args
      else none
  | _ => none

/-- The value of a counter is what the code makes of the calls, and nothing has
been asked of metrics that are not made yet. -/
structure CounterInv (s : MetricWorld Num) : Prop where
  fresh : ∀ id, s.store.registry.next ≤ id → s.store.registry.kind id = .counter ∧ s.ops id = []
  val : ∀ id, s.store.registry.kind id = .counter → s.store.val id = codeValue (s.ops id)

/-- What a step does to a counter. -/
structure CounterStep (s t : MetricWorld Num) (a : MetricAction Num) (id : MetricId) : Prop where
  ops : t.ops id = s.ops id ++ (s.opOn id a).toList
  val : t.store.val id = (s.opOn id a).toList.foldl CounterOp.apply (s.store.val id)

omit [LuaNumber Num] in
/-- A call of the registry gives a type to a metric that it makes. -/
theorem call_kind (r : Registry) (c : RegistryCall) (id : MetricId) :
    (r.call c).1.kind id = r.kind id ∨ (id = r.next ∧ r.next < (r.call c).1.next) := by
  cases c with
  | get T name => exact .inl rfl
  | register T name =>
      show (r.registerMetric T name).1.kind id = _ ∨ (_ ∧ _ < (r.registerMetric T name).1.next)
      unfold Registry.registerMetric
      cases r.getMetric T name with
      | some m => exact .inl rfl
      | none =>
          by_cases hid : id = r.next
          · exact .inr ⟨hid, Nat.lt_succ_self _⟩
          · exact .inl (Function.update_of_ne hid _ _)

/-- The metrics behind a step: one may have been made. -/
theorem step_kind (h : MetricInv s) {a : MetricAction Num} (hstep : metricStep s a = some t)
    (id : MetricId) :
    s.store.registry.next ≤ t.store.registry.next ∧
      (t.store.registry.kind id = s.store.registry.kind id ∨
        (id = s.store.registry.next ∧ s.store.registry.next < t.store.registry.next)) := by
  have hregistry : t.store.registry = s.store.registry ∨
      ∃ c, t.store.registry = (s.store.registry.call c).1 := by
    cases step_does h hstep with
    | misused | counted | measured | deleted => exact .inl rfl
    | called heffect => exact heffect.registry
    | @registered T name => exact .inr ⟨.register T name, rfl⟩
    | aggregated => exact .inl (aggregate_registry _ _)
  rcases hregistry with hsame | ⟨c, hcall⟩
  · rw [hsame]
    exact ⟨Nat.le_refl _, .inl rfl⟩
  · rw [hcall]
    exact ⟨(call_grows _ c).next, call_kind _ c id⟩

/-- A call that is misused asks nothing of a counter. -/
theorem opOn_of_misused {o : Nat} {m : MetricMethod} {args : List (LuaValue Num)}
    {clock : Nat → Int} (hbad : m.Misused args (s.callOf o)) :
    s.opOn id (.call o m args clock) = none := by
  by_cases hheld : (s.objects o).metric = some id ∧ s.store.registry.kind id = .counter
  · have hdyn : (s.callOf o).dynamicType = some .counter := by
      rw [dynamicType_of_some hheld.1]
      exact congrArg some hheld.2
    refine (if_pos hheld).trans ?_
    cases m with
    | increment => exact absurd hdyn hbad.1
    | decrement | reset => exact absurd hdyn hbad
    | _ => rfl
  · exact if_neg hheld

/-- **One step and one counter**: only calls of Lua count. -/
theorem counterStep (h : MetricInv s) {a : MetricAction Num} (hstep : metricStep s a = some t)
    (hid : s.store.registry.kind id = .counter) : CounterStep s t a id := by
  have hsame : ∀ {u : MetricWorld Num}, u.ops id = s.ops id → u.store.val id = s.store.val id →
      s.opOn id a = none → CounterStep s u a id := by
    intro u hops hval hop
    refine ⟨?_, ?_⟩
    · rw [hops, hop]
      exact (List.append_nil _).symm
    · rw [hval, hop]
      rfl
  cases step_does h hstep with
  | misused hbad => exact hsame rfl rfl (opOn_of_misused hbad)
  | @called o m args clock u heffect =>
      have hval := heffect.val id hid
      by_cases hheld : (s.objects o).metric = some id
      · have hop : s.opOn id (.call o m args clock) = m.counterOp args := if_pos ⟨hheld, hid⟩
        refine ⟨?_, ?_⟩
        · rw [hop]
          exact if_pos ⟨hheld, hid⟩
        · rw [hop]
          exact hval.trans (if_pos hheld)
      · have hnot : ¬ ((s.objects o).metric = some id ∧ s.store.registry.kind id = .counter) :=
          fun hboth => hheld hboth.1
        exact hsame (if_neg hnot) (hval.trans (if_neg hheld)) (if_neg hnot)
  | registered | measured | deleted => exact hsame rfl rfl rfl
  | counted hmeter =>
      refine hsame rfl (Function.update_of_ne ?_ _ _) rfl
      rintro rfl
      exact nomatch hid.symm.trans hmeter
  | aggregated => exact hsame rfl (aggregate_val _ _ hid) rfl

/-- A metric that is not made yet is like a counter that is never used, so what
is a counter behind a step was one before. -/
theorem kind_before (hinv : MetricInv s) (h : CounterInv s) {a : MetricAction Num}
    (hstep : metricStep s a = some t) (hid : t.store.registry.kind id = .counter) :
    s.store.registry.kind id = .counter := by
  rcases (step_kind hinv hstep id).2 with hsame | ⟨hnext, -⟩
  · exact hsame.symm.trans hid
  · exact (h.fresh id (Nat.le_of_eq hnext.symm)).1

/-- No object holds a metric that is not made yet. -/
theorem opOn_of_fresh (hinv : MetricInv s) (hid : s.store.registry.next ≤ id)
    (a : MetricAction Num) : s.opOn id a = none := by
  cases a with
  | call o m args clock =>
      refine if_neg ?_
      rintro ⟨hheld, -⟩
      exact absurd hid (Nat.not_le.mpr ((hinv.objects o).metric id hheld).1)
  | register | countMeter | measure | aggregate | delete => rfl

theorem counterInv_step (hinv : MetricInv s) (h : CounterInv s) {a : MetricAction Num}
    (hstep : metricStep s a = some t) : CounterInv t := by
  constructor
  · intro id hid
    obtain ⟨hnext, hkind⟩ := step_kind hinv hstep id
    obtain ⟨hcounter, hops⟩ := h.fresh id (hnext.trans hid)
    refine ⟨?_, ?_⟩
    · rcases hkind with hsame | ⟨hmade, hlt⟩
      · exact hsame.trans hcounter
      · exact absurd (hmade ▸ hlt) (Nat.not_lt.mpr hid)
    · rw [(counterStep hinv hstep hcounter).ops, hops, opOn_of_fresh hinv (hnext.trans hid)]
      rfl
  · intro id hid
    have hbefore := kind_before hinv h hstep hid
    have hcounter := counterStep hinv hstep hbefore
    rw [hcounter.val, hcounter.ops, h.val id hbefore]
    unfold codeValue
    rw [List.foldl_append]

theorem counterInv_reach (h : (metricMachine Num).Reach s) : CounterInv s := by
  have hinit : CounterInv (metricMachine Num).init := ⟨fun _ _ => ⟨rfl, rfl⟩, fun _ _ => rfl⟩
  exact h.invariant_of (fun _ hreach => metricInv_reach hreach) hinit
    (fun _ _ _ hinv hs _ hstep => counterInv_step hinv hs hstep)

/-! ## §4. Exact counters. -/

/-- An object that holds the counter gets the exact value from `total`, as far
as that has been in range. -/
def MetricWorld.CounterExact (s : MetricWorld Num) (id : MetricId) : Prop :=
  ∀ o, (s.objects o).metric = some id → s.store.registry.kind id = .counter → InRange (s.ops id) →
    ∀ (args : List (LuaValue Num)) (clock : Nat → Int),
      MetricMethod.run .total args clock (s.callOf o) =
        .returned [exactValue (s.ops id)] (s.callOf o)

/-- A call that increments or decrements the counter by a number, and keeps the
exact value in range, does so by an `int`. -/
def CountsInts (id : MetricId) (s : MetricWorld Num) (a : MetricAction Num) : Prop :=
  ∀ op, s.opOn id a = some op → InRange (s.ops id ++ [op]) → op.Fits

theorem total_of_counter (hinv : MetricInv s) {o : Nat} (hheld : (s.objects o).metric = some id)
    (hid : s.store.registry.kind id = .counter) (args : List (LuaValue Num)) (clock : Nat → Int) :
    MetricMethod.run .total args clock (s.callOf o) =
      .returned [Metric.pushed (s.store.val id)] (s.callOf o) := by
  have hdyn : (s.callOf o).dynamicType = some .counter := by
    rw [dynamicType_of_some hheld]
    exact congrArg some hid
  obtain ⟨id', hid', hcases⟩ := total_returned (hinv.objects o) (fun hbad => hbad.1 hdyn)
  obtain rfl := Option.some.inj (hid'.symm.trans hheld)
  rcases hcases with ⟨-, hrun⟩ | ⟨hmeter, -⟩
  · exact hrun
  · exact nomatch hid.symm.trans hmeter

/-- The value of a counter is exact where it is a counter. -/
def MetricWorld.ValExact (s : MetricWorld Num) (id : MetricId) : Prop :=
  s.store.registry.kind id = .counter → ExactVal (s.ops id)

theorem counterExact_of_valExact (hinv : MetricInv s) (hcounter : CounterInv s)
    (h : s.ValExact id) : s.CounterExact id := by
  intro o hheld hid hrange args clock
  rw [total_of_counter hinv hheld hid, hcounter.val id hid, h hid hrange,
    pushed_ofInt hrange.value.1 hrange.value.2]

/-- Where an object holds the counter, its total tells the value. -/
theorem valExact_of_held (hinv : MetricInv s) (hcounter : CounterInv s) {o : Nat}
    (hheld : (s.objects o).metric = some id) (h : s.CounterExact id) : s.ValExact id := by
  intro hid hrange
  have htotal := h o hheld hid hrange [] (fun _ => 0)
  rw [total_of_counter hinv hheld hid] at htotal
  have hpushed := List.head_eq_of_cons_eq (Outcome.returned.inj htotal).1
  rw [← hcounter.val id hid, ← hpushed, ofInt_pushed]

/-- A call that asks something of a counter is one of an object that holds it,
and goes on to hold it. -/
theorem held_of_opOn (hinv : MetricInv s) {a : MetricAction Num} (hstep : metricStep s a = some t)
    {op : CounterOp} (hop : s.opOn id a = some op) :
    s.store.registry.kind id = .counter ∧ t.store.registry.kind id = .counter ∧
      ∃ o, (t.objects o).metric = some id := by
  cases a with
  | register | countMeter | measure | aggregate | delete => cases hop
  | call o m args clock =>
      obtain ⟨⟨hheld, hid⟩, hm⟩ := Option.ite_none_right_eq_some.mp hop
      cases step_does hinv hstep with
      | misused hbad => exact nomatch (opOn_of_misused hbad).symm.trans hop
      | @called _ _ _ _ u heffect =>
          have hgrows := (heffect.grows hinv.numbered).1
          have hlt := ((hinv.objects o).metric id hheld).1
          refine ⟨hid, (hgrows.kind id hlt).trans hid, o, ?_⟩
          show (Function.update s.objects o u.self o).metric = some id
          rw [Function.update_self, heffect.self op hm]
          exact hheld

/-- **One step** from a state in which the value is exact. -/
theorem valExact_step_iff (hinv : MetricInv s) (hcounter : CounterInv s) (h : s.ValExact id)
    {a : MetricAction Num} (hstep : metricStep s a = some t) :
    t.ValExact id ↔ CountsInts id s a := by
  cases hop : s.opOn id a with
  | none =>
      refine iff_of_true ?_ (fun op hsome => nomatch hop.symm.trans hsome)
      intro hid
      have hbefore := kind_before hinv hcounter hstep hid
      rw [(counterStep hinv hstep hbefore).ops, hop, Option.toList_none, List.append_nil]
      exact h hbefore
  | some op =>
      obtain ⟨hbefore, hafter, -⟩ := held_of_opOn hinv hstep hop
      have hops := (counterStep hinv hstep hbefore).ops
      rw [hop, Option.toList_some] at hops
      unfold MetricWorld.ValExact CountsInts
      rw [hops, hop, exactVal_snoc_iff (h hbefore)]
      constructor
      · intro hfits op' heq
        obtain rfl := Option.some.inj heq
        exact hfits hafter
      · intro hfits _
        exact hfits op rfl

/-- **LUA COUNTERS ARE EXACT, EXACTLY IF** they are incremented and decremented
by numbers that are an `int`.  In a run, `total` returns the sum of the
increments less the decrements since the last reset in every state in which
this has been in range since then, if and only if every call that keeps it in
range has such an argument. -/
theorem counter_exact_iff {as : List (MetricAction Num)} (hrun : ((metricMachine Num).run as).isSome)
    (id : MetricId) :
    (∀ before s, before <+: as → (metricMachine Num).run before = some s → s.CounterExact id) ↔
      ∀ before a s, before ++ [a] <+: as → (metricMachine Num).run before = some s →
        CountsInts id s a := by
  have hinv : ∀ before s, (metricMachine Num).run before = some s → MetricInv s ∧ CounterInv s := by
    intro before s hs
    have hreach := Machine.reach_iff_run.mpr ⟨before, hs⟩
    exact ⟨metricInv_reach hreach, counterInv_reach hreach⟩
  have hinit : (metricMachine Num).init.ValExact id := fun _ _ => rfl
  have hexact := Machine.run_invariant_iff (M := metricMachine Num)
    (I := fun s => MetricInv s ∧ CounterInv s ∧ s.ValExact id) (g := CountsInts id)
    ⟨(hinv [] _ rfl).1, (hinv [] _ rfl).2, hinit⟩ ?_ hrun
  · rw [← hexact]
    constructor
    · intro hall before
      induction before using List.reverseRecOn with
      | nil =>
          intro s _ hs
          obtain rfl := Option.some.inj hs
          exact ⟨(hinv [] _ rfl).1, (hinv [] _ rfl).2, hinit⟩
      | append_singleton before a ih =>
          intro t hbefore ht
          obtain ⟨hmetric, hcounter⟩ := hinv _ t ht
          refine ⟨hmetric, hcounter, ?_⟩
          rw [Machine.run_concat] at ht
          obtain ⟨s, hs, hstep⟩ := Option.bind_eq_some_iff.mp ht
          obtain ⟨hmetric₀, hcounter₀, hval₀⟩ :=
            ih s ((List.prefix_append before [a]).trans hbefore) hs
          cases hop : s.opOn id a with
          | none =>
              refine (valExact_step_iff hmetric₀ hcounter₀ hval₀ hstep).mpr ?_
              exact fun op hsome => nomatch hop.symm.trans hsome
          | some op =>
              -- the object of the call can ask for the total
              obtain ⟨-, -, o, hheld⟩ := held_of_opOn hmetric₀ hstep hop
              refine valExact_of_held hmetric hcounter hheld (hall _ t hbefore ?_)
              rw [Machine.run_concat, hs]
              exact hstep
    · intro hall before s hbefore hs
      obtain ⟨hmetric, hcounter, hval⟩ := hall before s hbefore hs
      exact counterExact_of_valExact hmetric hcounter hval
  · rintro s a t ⟨hmetric, hcounter, hval⟩ hstep
    rw [← valExact_step_iff hmetric hcounter hval hstep]
    constructor
    · intro h
      exact h.2.2
    · intro h
      exact ⟨metricInv_step hmetric hstep, counterInv_step hmetric hcounter hstep, h⟩

end Counter

/-- A counter that Lua increments by `n` and decrements by 2. -/
def countSteps (n : Int) : List (MetricAction Int) :=
  [.call 0 .registerCounter [.string (bytes "hits")] (fun _ => 0),
    .call 0 .increment [.number n] (fun _ => 0), .call 0 .decrement [.number 2] (fun _ => 0)]

/-- What Lua has asked of the counter then. -/
def hits (n : Int) : List CounterOp := [.increment n, .decrement 2]

theorem inRange_hits {n : Int} (hlow : 2 ≤ n) (hhigh : n ≤ 2 ^ 53) : InRange (hits n) := by
  have hnil : InRange [] := by
    intro p hp
    rw [List.prefix_nil.mp hp]
    exact ⟨Int.le_refl 0, by decide⟩
  have hincrement : CounterOp.increment n ≠ .reset := nofun
  have hdecrement : CounterOp.decrement 2 ≠ .reset := nofun
  have hzero : exactValue [] = 0 := rfl
  show InRange (([] ++ [.increment n]) ++ [.decrement 2])
  rw [inRange_snoc hdecrement, inRange_snoc hincrement, exactValue_snoc hdecrement,
    exactValue_snoc hincrement, hzero]
  simp only [CounterOp.delta]
  exact ⟨⟨hnil, by omega, by omega⟩, by omega, by omega⟩

/-- The total of five hits less two. -/
theorem counter_exact_iff_three :
    ∃ s, (metricMachine Int).run (countSteps 5) = some s ∧
      MetricMethod.run .total [] (fun _ => 0) (s.callOf 0) = .returned [3] (s.callOf 0) := by
  have hrun : ((metricMachine Int).run (countSteps 5)).map
      (fun s => decide ((s.objects 0).metric = some 0 ∧ s.store.registry.kind 0 = .counter ∧
        s.ops 0 = hits 5)) = some true := by
    decide +kernel
  obtain ⟨s, hs, hp⟩ := Option.map_eq_some_iff.mp hrun
  obtain ⟨hheld, hid, hops⟩ := of_decide_eq_true hp
  have hints : ∀ before a s, before ++ [a] <+: countSteps 5 →
      (metricMachine Int).run before = some s → CountsInts 0 s a := by
    intro before a s hbefore _ op hop _
    have ha : a ∈ countSteps 5 := hbefore.subset (List.mem_append_right _ (List.mem_singleton_self a))
    rcases List.mem_cons.mp ha with rfl | ha
    · cases (Option.ite_none_right_eq_some.mp hop).2
    · rcases List.mem_pair.mp ha with rfl | rfl
      · obtain rfl := Option.some.inj (Option.ite_none_right_eq_some.mp hop).2
        show -2 ^ 31 ≤ (5 : Int) ∧ (5 : Int) < 2 ^ 31
        decide
      · obtain rfl := Option.some.inj (Option.ite_none_right_eq_some.mp hop).2
        show -2 ^ 31 ≤ (2 : Int) ∧ (2 : Int) < 2 ^ 31
        decide
  have hexact := (counter_exact_iff (by rw [hs]; rfl) 0).mpr hints (countSteps 5) s
    (List.prefix_refl _) hs
  refine ⟨s, hs, ?_⟩
  have htotal := hexact 0 hheld hid (by rw [hops]; exact inRange_hits (by decide) (by decide))
    [] (fun _ => 0)
  rw [hops] at htotal
  exact htotal

/-- **INCREMENTS ARE NARROWED.**  An increment by 2^32 counts nothing: the exact
value is 4294967294 behind a decrement by 2, and the total is -2. -/
theorem increment_is_narrowed :
    ((metricMachine Int).run (countSteps 4294967296)).map (fun s => s.store.val 0) =
        some (UInt64.ofInt (-2)) ∧
    InRange (hits 4294967296) ∧ exactValue (hits 4294967296) = 4294967294 ∧
    ¬ ∀ s, (metricMachine Int).Reach s → ∀ id, s.CounterExact id := by
  refine ⟨by decide +kernel, inRange_hits (by decide) (by decide), by decide, ?_⟩
  intro hall
  obtain ⟨s, hreach, hheld, hid, hops, hval⟩ := (metricMachine Int).exists_reach_of_run
    (countSteps 4294967296) (fun s => (s.objects 0).metric = some 0 ∧
      s.store.registry.kind 0 = .counter ∧ s.ops 0 = hits 4294967296 ∧
      s.store.val 0 = UInt64.ofInt (-2)) (by decide +kernel)
  have hexact := hall s hreach 0 0 hheld hid
    (by rw [hops]; exact inRange_hits (by decide) (by decide)) [] (fun _ => 0)
  rw [total_of_counter (metricInv_reach hreach) hheld hid, hops, hval] at hexact
  exact absurd (Outcome.returned.inj hexact).1 (by decide +kernel)

end Petrel
