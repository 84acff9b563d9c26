/-
  Petrel.Metrics.Graphite — what the registry thread sends to graphite.

  Every metric writes its series as lines "path value time".  The path is made
  of a prefix, the name of the metric and a suffix, and a name is any string a
  Lua function or a route was given; nothing is escaped.  The values are
  printed by a stream, which is a parameter here, and the metrics come in the
  order of the map, which is any order.

  Main results:
    * `graphite_reads_back_iff` — a report is read back, line by line, if and
      only if no name in it has a space or a newline.
    * `graphite_paths_nodup_iff` — no two lines have one path, if and only if no
      counter has the name of a series of another metric.
-/

import Petrel.Core.Request
import Petrel.Framework.Records
import Petrel.Metrics.Meter
import Petrel.Metrics.OneMinute

namespace Petrel

open Framework

/-! ## §1. The lines of a metric. -/

/-- A number as a stream prints it. -/
def intText (n : Int) : Bytes := (if n < 0 then [byte '-'] else []) ++ decimal n.natAbs

/-- `os << name << suffix << ' ' << value << ' ' << ts << std::endl`. -/
def graphiteLine (name suffix value ts : Bytes) : Bytes :=
  name ++ suffix ++ bytes " " ++ value ++ bytes " " ++ ts ++ [byte '\n']

/-- `counter::graphite`. -/
def counterGraphite (val : UInt64) (name ts : Bytes) : Bytes :=
  graphiteLine name [] (decimal val.toNat) ts

section Graphite

variable {D : Type} [Field D] [LinearOrder D] [FloorRing D]

/-- `meter::graphite`. -/
def Meter.graphite (shown : D → Bytes) (m : Meter D) (name ts : Bytes) : Bytes :=
  graphiteLine name (bytes ".1m_rate") (shown m.rate1min) ts ++
  graphiteLine name (bytes ".5m_rate") (shown m.rate5min) ts ++
  graphiteLine name (bytes ".15m_rate") (shown m.rate15min) ts ++
  graphiteLine name (bytes ".1hr_rate") (shown m.rate1hr) ts

/-- The part of the samples that is in a bin, in percent. -/
def Histogram.percent (hist : Histogram D) (count : Nat) : D :=
  if hist.count > 0 then (count : D) / (hist.count : D) * 100 else 0

/-- `static_cast<int>`, which cuts the fraction off. -/
def truncated (x : D) : Int := if 0 ≤ x then ⌊x⌋ else ⌈x⌉

/-- `timer::graphite` behind its first line, which has taken the histogram. -/
def Histogram.graphite (shown : D → Bytes) (hist : Histogram D) (name ts : Bytes) : Bytes :=
  graphiteLine name (bytes ".1m_avg_ms") (shown (hist.avg / 1000000)) ts ++
  graphiteLine name (bytes ".1m_min_ms") (shown (hist.min / 1000000)) ts ++
  graphiteLine name (bytes ".1m_max_ms") (shown (hist.max / 1000000)) ts ++
  graphiteLine name (bytes ".1m_count") (decimal hist.count) ts ++
  hist.dist.flatMap fun p =>
    let ms := intText (truncated (p.1 / 1000000))
    graphiteLine name (bytes ".1m_dist_" ++ ms ++ bytes "ms_percent") (shown (hist.percent p.2)) ts ++
    graphiteLine name (bytes ".1m_dist_" ++ ms ++ bytes "ms_count") (decimal p.2) ts

/-- The metric objects with what they hold, and what the streams do: how they
print a `double`, and the greatest one. -/
structure Reporting (D : Type) [Zero D] where
  registry : Registry
  counter : MetricId → UInt64
  meter : MetricId → Meter D
  timer : MetricId → TimerState D
  shown : D → Bytes
  numericMax : D

/-- The parameters of every timer of the registry: `make_shared<timer>()`. -/
def defaultTimerConfig : TimerConfig D := ⟨10, 1000000⟩

/-- `metric->graphite(name, ts, os)`. -/
def Reporting.graphite (w : Reporting D) (id : MetricId) (name ts : Bytes) : Bytes :=
  match w.registry.kind id with
  | .counter => counterGraphite (w.counter id) name ts
  | .meter => (w.meter id).graphite w.shown name ts
  | .timer => (get1minHistogram defaultTimerConfig w.numericMax (w.timer id)).graphite w.shown name ts

/-- The buffer that is sent: the loop over `m_metrics`. -/
def Reporting.report (w : Reporting D) (pre : Bytes) (ts : Int) (metrics : List (Bytes × MetricId)) :
    Bytes :=
  metrics.flatMap fun metric => w.graphite metric.2 (pre ++ metric.1) (intText ts)

/-! ## §2. The series. -/

/-- The series of a histogram: the end of its path, and the value. -/
def Histogram.series (shown : D → Bytes) (hist : Histogram D) : List (Bytes × Bytes) :=
  [(bytes ".1m_avg_ms", shown (hist.avg / 1000000)), (bytes ".1m_min_ms", shown (hist.min / 1000000)),
    (bytes ".1m_max_ms", shown (hist.max / 1000000)), (bytes ".1m_count", decimal hist.count)] ++
  hist.dist.flatMap fun p =>
    let ms := intText (truncated (p.1 / 1000000))
    [(bytes ".1m_dist_" ++ ms ++ bytes "ms_percent", shown (hist.percent p.2)),
      (bytes ".1m_dist_" ++ ms ++ bytes "ms_count", decimal p.2)]

/-- The series of a metric. -/
def Reporting.series (w : Reporting D) (id : MetricId) : List (Bytes × Bytes) :=
  match w.registry.kind id with
  | .counter => [([], decimal (w.counter id).toNat)]
  | .meter =>
      [(bytes ".1m_rate", w.shown (w.meter id).rate1min),
        (bytes ".5m_rate", w.shown (w.meter id).rate5min),
        (bytes ".15m_rate", w.shown (w.meter id).rate15min),
        (bytes ".1hr_rate", w.shown (w.meter id).rate1hr)]
  | .timer => (get1minHistogram defaultTimerConfig w.numericMax (w.timer id)).series w.shown

/-- The path, the value and the time of every series. -/
def Reporting.records (w : Reporting D) (pre : Bytes) (ts : Int) (metrics : List (Bytes × MetricId)) :
    List (List Bytes) :=
  metrics.flatMap fun metric => (w.series metric.2).map fun s =>
    [pre ++ metric.1 ++ s.1, s.2, intText ts]

theorem graphiteLine_eq (name suffix value ts : Bytes) :
    graphiteLine name suffix value ts =
      writeRecord (byte ' ') (byte '\n') [name ++ suffix, value, ts] := by
  unfold graphiteLine writeRecord
  simp [List.intercalate_cons_cons, show bytes " " = [byte ' '] from rfl]

/-- **The lines of a metric are its series.** -/
theorem graphite_series (w : Reporting D) (id : MetricId) (name ts : Bytes) :
    w.graphite id name ts = (w.series id).flatMap fun s => graphiteLine name s.1 s.2 ts := by
  unfold Reporting.graphite Reporting.series
  cases w.registry.kind id with
  | counter => exact (List.append_nil _).symm
  | meter => simp [Meter.graphite]
  | timer => simp [Histogram.graphite, Histogram.series, List.flatMap_assoc]

theorem report_eq (w : Reporting D) (pre : Bytes) (ts : Int) (metrics : List (Bytes × MetricId)) :
    w.report pre ts metrics = writeRecords (byte ' ') (byte '\n') (w.records pre ts metrics) := by
  unfold Reporting.report Reporting.records writeRecords
  rw [List.flatMap_assoc]
  congr 1
  funext metric
  rw [graphite_series, List.flatMap_map]
  congr 1
  funext s
  exact graphiteLine_eq _ _ _ _

/-! ## §3. Reading a report. -/

/-- A string without a space and without a newline. -/
def OneField (s : Bytes) : Prop := byte ' ' ∉ s ∧ byte '\n' ∉ s

instance (s : Bytes) : Decidable (OneField s) := inferInstanceAs (Decidable (_ ∧ _))

theorem oneField_append {a b : Bytes} : OneField (a ++ b) ↔ OneField a ∧ OneField b := by
  unfold OneField
  simp only [List.mem_append, not_or]
  exact and_and_and_comm

theorem digit_of_mem_decimal {n : Nat} {c : UInt8} (h : c ∈ decimal n) :
    48 ≤ c.toNat ∧ c.toNat ≤ 57 := by
  obtain ⟨d, hd, rfl⟩ := List.mem_map.mp h
  have hdigit : 48 ≤ d.toNat ∧ d.toNat ≤ 57 := by
    simpa [Char.isDigit, UInt32.le_iff_toNat_le] using
      Nat.isDigit_of_mem_toDigits (by decide) (by decide) hd
  have hbyte : (byte d).toNat = d.toNat := by
    show (d.toNat.toUInt8).toNat = d.toNat
    rw [Nat.toUInt8_eq, UInt8.toNat_ofNat', Nat.mod_eq_of_lt (by omega)]
  rwa [hbyte]

theorem notMem_intText {c : UInt8} (hminus : c ≠ byte '-') (hdigit : ¬ (48 ≤ c.toNat ∧ c.toNat ≤ 57))
    (n : Int) : c ∉ intText n := by
  intro h
  rcases List.mem_append.mp h with h | h
  · by_cases hn : n < 0
    · rw [if_pos hn] at h
      exact hminus (List.mem_singleton.mp h)
    · rw [if_neg hn] at h
      exact nomatch h
  · exact hdigit (digit_of_mem_decimal h)

theorem oneField_decimal (n : Nat) : OneField (decimal n) :=
  ⟨fun h => absurd (digit_of_mem_decimal h) (by decide), fun h => absurd (digit_of_mem_decimal h) (by decide)⟩

theorem oneField_intText (n : Int) : OneField (intText n) :=
  ⟨notMem_intText (by decide) (by decide) n, notMem_intText (by decide) (by decide) n⟩

omit [LinearOrder D] [FloorRing D] in
theorem oneField_literals : ∀ s ∈ [bytes ".1m_rate", bytes ".5m_rate", bytes ".15m_rate", bytes ".1hr_rate",
    bytes ".1m_avg_ms", bytes ".1m_min_ms", bytes ".1m_max_ms", bytes ".1m_count", bytes ".1m_dist_",
    bytes "ms_percent", bytes "ms_count"], OneField s := by
  decide

/-- What a metric adds to its line never needs quoting. -/
theorem oneField_series (w : Reporting D) (hshown : ∀ x, OneField (w.shown x)) (id : MetricId) :
    ∀ s ∈ w.series id, OneField s.1 ∧ OneField s.2 := by
  unfold Reporting.series
  cases w.registry.kind id with
  | counter =>
      intro s hs
      obtain rfl := List.mem_singleton.mp hs
      exact ⟨⟨List.not_mem_nil, List.not_mem_nil⟩, oneField_decimal _⟩
  | meter =>
      intro s hs
      simp only [List.mem_cons, List.not_mem_nil, or_false] at hs
      rcases hs with rfl | rfl | rfl | rfl
      · exact ⟨oneField_literals _ (by simp), hshown _⟩
      · exact ⟨oneField_literals _ (by simp), hshown _⟩
      · exact ⟨oneField_literals _ (by simp), hshown _⟩
      · exact ⟨oneField_literals _ (by simp), hshown _⟩
  | timer =>
      intro s hs
      rcases List.mem_append.mp hs with hs | hs
      · simp only [List.mem_cons, List.not_mem_nil, or_false] at hs
        rcases hs with rfl | rfl | rfl | rfl
        · exact ⟨oneField_literals _ (by simp), hshown _⟩
        · exact ⟨oneField_literals _ (by simp), hshown _⟩
        · exact ⟨oneField_literals _ (by simp), hshown _⟩
        · exact ⟨oneField_literals _ (by simp), oneField_decimal _⟩
      · obtain ⟨p, -, hs⟩ := List.mem_flatMap.mp hs
        have hdist : ∀ tail, OneField tail →
            OneField (bytes ".1m_dist_" ++ intText (truncated (p.1 / 1000000)) ++ tail) := fun tail ht =>
          oneField_append.mpr ⟨oneField_append.mpr ⟨oneField_literals _ (by simp), oneField_intText _⟩, ht⟩
        simp only [List.mem_cons, List.not_mem_nil, or_false] at hs
        rcases hs with rfl | rfl
        · exact ⟨hdist _ (oneField_literals _ (by simp)), hshown _⟩
        · exact ⟨hdist _ (oneField_literals _ (by simp)), oneField_decimal _⟩

theorem series_ne_nil (w : Reporting D) (id : MetricId) : w.series id ≠ [] := by
  unfold Reporting.series
  cases w.registry.kind id with
  | counter => exact List.cons_ne_nil _ _
  | meter => exact List.cons_ne_nil _ _
  | timer => exact List.cons_ne_nil _ _

/-- **A report is read back**, every line as the path, the value and the time
it was written with, if and only if no name has a space or a newline: with one
of them a name takes the place of a value, or makes a line of its own. -/
theorem graphite_reads_back_iff (w : Reporting D) (hshown : ∀ x, OneField (w.shown x)) (pre : Bytes)
    (ts : Int) (metrics : List (Bytes × MetricId)) :
    readRecords (byte ' ') (byte '\n') (w.report pre ts metrics) = some (w.records pre ts metrics) ↔
      ∀ metric ∈ metrics, OneField (pre ++ metric.1) := by
  have hrecords : ∀ r ∈ w.records pre ts metrics, r ≠ [] := by
    intro r hr
    obtain ⟨metric, -, hr⟩ := List.mem_flatMap.mp hr
    obtain ⟨s, -, rfl⟩ := List.mem_map.mp hr
    exact List.cons_ne_nil _ _
  rw [report_eq, readRecords_write_iff (by decide) hrecords]
  constructor
  · intro h metric hmetric
    obtain ⟨s, hs⟩ := List.exists_mem_of_ne_nil _ (series_ne_nil w metric.2)
    have hpath : OneField (pre ++ metric.1 ++ s.1) :=
      h _ (List.mem_flatMap.mpr ⟨metric, hmetric, List.mem_map_of_mem hs⟩) _ List.mem_cons_self
    exact (oneField_append.mp hpath).1
  · intro h r hr
    obtain ⟨metric, hmetric, hr⟩ := List.mem_flatMap.mp hr
    obtain ⟨s, hs, rfl⟩ := List.mem_map.mp hr
    obtain ⟨hsuffix, hvalue⟩ := oneField_series w hshown metric.2 s hs
    intro f hf
    simp only [List.mem_cons, List.not_mem_nil, or_false] at hf
    rcases hf with rfl | rfl | rfl
    · exact oneField_append.mpr ⟨h metric hmetric, hsuffix⟩
    · exact hvalue
    · exact oneField_intText ts

/-! ## §4. The paths of a report. -/

/-- The bounds of the bins. -/
theorem lowers_binsFrom (binSize lower : D) (n : Nat) :
    (binsFrom binSize lower n).map Prod.fst =
      (List.range n).map (fun i : Nat => lower + (i : D) * binSize) := by
  induction n generalizing lower with
  | zero => rfl
  | succ n ih =>
      show lower :: (binsFrom binSize (lower + binSize) n).map Prod.fst = _
      rw [ih, List.range_succ_eq_map, List.map_cons, List.map_map]
      congr 1
      · simp
      · refine List.map_congr_left fun i _ => ?_
        simp only [Function.comp_apply, Nat.cast_succ]
        ring

omit [FloorRing D] in
/-- The loop over the windows keeps the bounds. -/
theorem lowers_mergeWindow (cfg : TimerConfig D) (a hist : Histogram D) :
    (mergeWindow cfg a hist).dist.map Prod.fst = a.dist.map Prod.fst := by
  have hfold : ∀ (is : List Nat) (a : Histogram D),
      (is.foldl (fun (a : Histogram D) i => a.updateBin i (hist.binCount i)) a).dist.map Prod.fst =
        a.dist.map Prod.fst := by
    intro is
    induction is with
    | nil => exact fun _ => rfl
    | cons i is ih => exact fun a => (ih _).trans (lowers_updateBin a i _)
  have hdist : ∀ (c : Prop) [Decidable c] (a b : Histogram D), a.dist = b.dist →
      (if c then a else b).dist = b.dist := by
    intro c _ a b hab
    by_cases hc : c
    · rw [if_pos hc, hab]
    · rw [if_neg hc]
  unfold mergeWindow
  extract_lets a₁ a₂ a₃
  have ha₃ : a₃.dist = a₂.dist := hdist _ _ _ rfl
  have hmax : (if a₃.max < hist.max then { a₃ with max := hist.max } else a₃).dist = a₃.dist :=
    hdist _ _ _ rfl
  exact (congrArg (List.map Prod.fst) (hmax.trans ha₃)).trans (hfold _ a₁)

omit [FloorRing D] in
theorem lowers_get1minHistogram (cfg : TimerConfig D) (numericMax : D) (s : TimerState D) :
    (get1minHistogram cfg numericMax s).dist.map Prod.fst =
      (binsFrom cfg.binSize 0 (cfg.numOfBins + 1)).map Prod.fst := by
  have hfold : ∀ (windows : List (Histogram D)) (a : Histogram D),
      (windows.foldl (mergeWindow cfg) a).dist.map Prod.fst = a.dist.map Prod.fst := by
    intro windows
    induction windows with
    | nil => exact fun _ => rfl
    | cons hist windows ih => exact fun a => (ih _).trans (lowers_mergeWindow cfg a hist)
  unfold get1minHistogram
  by_cases hlen : s.minValues.length > 0
  · simp only [if_pos hlen]
    split
    · exact hfold _ _
    · exact hfold _ _
  · simp only [if_neg hlen]
    rfl

section Paths

variable [IsStrictOrderedRing D]

/-- The bins of a timer are named by whole milliseconds. -/
theorem timer_suffixes (shown : D → Bytes) (numericMax : D) (s : TimerState D) :
    ((get1minHistogram defaultTimerConfig numericMax s).series shown).map Prod.fst =
      [bytes ".1m_avg_ms", bytes ".1m_min_ms", bytes ".1m_max_ms", bytes ".1m_count"] ++
        (List.range 11).flatMap (fun i : Nat =>
          [bytes ".1m_dist_" ++ intText i ++ bytes "ms_percent",
            bytes ".1m_dist_" ++ intText i ++ bytes "ms_count"]) := by
  have hlowers := (lowers_get1minHistogram defaultTimerConfig numericMax s).trans (lowers_binsFrom _ _ _)
  generalize get1minHistogram defaultTimerConfig numericMax s = hist at hlowers
  have hms : ∀ i : Nat, truncated ((0 + (i : D) * 1000000) / 1000000) = (i : Int) := by
    intro i
    have hdiv : (0 + (i : D) * 1000000) / 1000000 = (i : D) := by
      rw [zero_add, mul_div_cancel_right₀ _ (by norm_num)]
    unfold truncated
    rw [hdiv, if_pos (Nat.cast_nonneg i), Int.floor_natCast]
  have hdist : ∀ dist : List (D × Nat),
      (dist.flatMap fun p =>
        [(bytes ".1m_dist_" ++ intText (truncated (p.1 / 1000000)) ++ bytes "ms_percent",
            shown (hist.percent p.2)),
          (bytes ".1m_dist_" ++ intText (truncated (p.1 / 1000000)) ++ bytes "ms_count",
            decimal p.2)]).map Prod.fst =
        (dist.map Prod.fst).flatMap fun lower =>
          [bytes ".1m_dist_" ++ intText (truncated (lower / 1000000)) ++ bytes "ms_percent",
            bytes ".1m_dist_" ++ intText (truncated (lower / 1000000)) ++ bytes "ms_count"] := by
    intro dist
    rw [List.map_flatMap, List.flatMap_map]
    rfl
  unfold Histogram.series
  rw [List.map_append, hdist, hlowers, List.flatMap_map]
  congr 2
  funext i
  simp only [defaultTimerConfig, hms]

/-- The suffixes of a metric. -/
theorem suffixes_nodup (w : Reporting D) (id : MetricId) : ((w.series id).map Prod.fst).Nodup := by
  unfold Reporting.series
  cases w.registry.kind id with
  | counter => exact List.nodup_singleton _
  | meter =>
      show [bytes ".1m_rate", bytes ".5m_rate", bytes ".15m_rate", bytes ".1hr_rate"].Nodup
      decide
  | timer =>
      show (((get1minHistogram defaultTimerConfig w.numericMax (w.timer id)).series w.shown).map
        Prod.fst).Nodup
      rw [timer_suffixes]
      decide

/-- A series of a meter or of a timer has its only dot in front. -/
theorem suffix_dot (w : Reporting D) {id : MetricId} (hkind : w.registry.kind id ≠ .counter) :
    ∀ s ∈ (w.series id).map Prod.fst, s.head? = some (byte '.') ∧ byte '.' ∉ s.tail := by
  unfold Reporting.series
  cases h : w.registry.kind id with
  | counter => exact absurd h hkind
  | meter =>
      show ∀ s ∈ [bytes ".1m_rate", bytes ".5m_rate", bytes ".15m_rate", bytes ".1hr_rate"], _
      decide
  | timer =>
      show ∀ s ∈ ((get1minHistogram defaultTimerConfig w.numericMax (w.timer id)).series w.shown).map
        Prod.fst, _
      rw [timer_suffixes]
      decide

omit [Field D] [LinearOrder D] [FloorRing D] [IsStrictOrderedRing D] in
/-- Two paths that end in such suffixes have the same name before them. -/
theorem name_eq_of_dot {a b s t : Bytes} (hs : s.head? = some (byte '.') ∧ byte '.' ∉ s.tail)
    (ht : t.head? = some (byte '.') ∧ byte '.' ∉ t.tail) (h : a ++ s = b ++ t) : a = b := by
  obtain ⟨s', rfl⟩ := List.head?_eq_some_iff.mp hs.1
  obtain ⟨t', rfl⟩ := List.head?_eq_some_iff.mp ht.1
  exact (append_sep_inj hs.2 ht.2 h).1

/-- The paths of a report. -/
def Reporting.paths (w : Reporting D) (pre : Bytes) (metrics : List (Bytes × MetricId)) : List Bytes :=
  metrics.flatMap fun metric => (w.series metric.2).map fun s => pre ++ metric.1 ++ s.1

/-- **No two lines of a report have one path**, if and only if no counter has
been given the name of a series of another metric. -/
theorem graphite_paths_nodup_iff (w : Reporting D) (pre : Bytes) {metrics : List (Bytes × MetricId)}
    (hnames : (metrics.map Prod.fst).Nodup) :
    (w.paths pre metrics).Nodup ↔
      ∀ counter ∈ metrics, w.registry.kind counter.2 = .counter →
        ∀ other ∈ metrics, other ≠ counter →
          counter.1 ∉ (w.series other.2).map (fun s => other.1 ++ s.1) := by
  have hinner : ∀ metric ∈ metrics, ((w.series metric.2).map fun s => pre ++ metric.1 ++ s.1).Nodup := by
    intro metric _
    have hmap : ((w.series metric.2).map fun s => pre ++ metric.1 ++ s.1) =
        ((w.series metric.2).map Prod.fst).map (pre ++ metric.1 ++ ·) := by
      rw [List.map_map]
      rfl
    rw [hmap]
    exact (suffixes_nodup w metric.2).map fun _ _ h => List.append_cancel_left h
  have hcounter : ∀ {id : MetricId}, w.registry.kind id = .counter → ∀ s ∈ w.series id, s.1 = [] := by
    intro id hkind s hs
    unfold Reporting.series at hs
    rw [hkind] at hs
    exact congrArg Prod.fst (List.mem_singleton.mp hs)
  have hsuffix : ∀ {id : MetricId} {s : Bytes × Bytes}, w.registry.kind id ≠ .counter → s ∈ w.series id →
      s.1.head? = some (byte '.') ∧ byte '.' ∉ s.1.tail := fun hkind hs =>
    suffix_dot w hkind _ (List.mem_map_of_mem hs)
  unfold Reporting.paths
  rw [List.nodup_flatMap]
  constructor
  · rintro ⟨-, hdisjoint⟩ counter hc hkind other ho hne hmem
    obtain ⟨s, hs, heq⟩ := List.mem_map.mp hmem
    have hsymm : Std.Symm (Function.onFun List.Disjoint
        fun metric : Bytes × MetricId => (w.series metric.2).map fun s => pre ++ metric.1 ++ s.1) :=
      ⟨fun _ _ h => List.Disjoint.symm h⟩
    have hpaths := hdisjoint.forall hc ho (Ne.symm hne)
    obtain ⟨s₀, hs₀⟩ := List.exists_mem_of_ne_nil _ (series_ne_nil w counter.2)
    refine hpaths (List.mem_map_of_mem hs₀) (List.mem_map.mpr ⟨s, hs, ?_⟩)
    rw [hcounter hkind s₀ hs₀, List.append_nil, List.append_assoc, heq]
  · intro h
    refine ⟨hinner, (List.Nodup.of_map _ hnames).pairwise_of_forall_ne fun a ha b hb hne => ?_⟩
    intro path hpa hpb
    obtain ⟨s, hs, rfl⟩ := List.mem_map.mp hpa
    obtain ⟨t, ht, heq⟩ := List.mem_map.mp hpb
    rw [List.append_assoc, List.append_assoc] at heq
    have hab : b.1 ++ t.1 = a.1 ++ s.1 := List.append_cancel_left heq
    by_cases hka : w.registry.kind a.2 = .counter
    · rw [hcounter hka s hs, List.append_nil] at hab
      exact h a ha hka b hb (Ne.symm hne) (hab ▸ List.mem_map_of_mem (f := fun s => b.1 ++ s.1) ht)
    · by_cases hkb : w.registry.kind b.2 = .counter
      · rw [hcounter hkb t ht, List.append_nil] at hab
        exact h b hb hkb a ha hne (hab ▸ List.mem_map_of_mem (f := fun s => a.1 ++ s.1) hs)
      · -- the paths of both end in a suffix with one dot
        have hname := name_eq_of_dot (hsuffix hkb ht) (hsuffix hka hs) hab
        exact hne (List.inj_on_of_nodup_map hnames ha hb hname.symm)

end Paths

end Graphite

/-- A meter and a counter of this name that have not counted yet. -/
def quietMetrics (counter : Bytes) : Reporting ℚ where
  registry := Registry.after [.register .meter (bytes "requests"), .register .counter counter]
  counter := fun _ => 0
  meter := fun _ => {}
  timer := fun _ => (timerMachine defaultTimerConfig).init
  shown := fun x => intText ⌊x⌋
  numericMax := 1

theorem graphite_reads_back_quiet :
    let metrics := [(bytes "hits", 1), (bytes "requests", 0)]
    let w := quietMetrics (bytes "hits")
    readRecords (byte ' ') (byte '\n') (w.report (bytes "petrel.host.") 60 metrics) =
      some (w.records (bytes "petrel.host.") 60 metrics) :=
  (graphite_reads_back_iff _ (fun x => oneField_intText ⌊x⌋) _ _ _).mpr (by decide)

theorem graphite_paths_nodup_quiet :
    ((quietMetrics (bytes "hits")).paths (bytes "petrel.host.")
      [(bytes "hits", 1), (bytes "requests", 0)]).Nodup :=
  (graphite_paths_nodup_iff _ _ (by decide)).mpr (by decide)

example : ¬ ((quietMetrics (bytes "requests.1m_rate")).paths []
    [(bytes "requests", 0), (bytes "requests.1m_rate", 1)]).Nodup := by decide

end Petrel
