/-
  Petrel.Metrics.OneMinute — the histogram of the last six windows.

  `get_1min_histogram` adds up the histograms of the retained windows.  Counts
  and sums add up; an empty window takes part in the minimum with its 0, and a
  window may have a fraction just above a bound in another bin than all samples
  together have it.

  Main results:
    * `sum_places_iff` — when the bins of the windows add up.
    * `oneMinute_exact_iff`  — when the histogram of one minute is that of all
      retained samples.
    * `empty_window_hides_minimum` — and when it is not.
-/

import Petrel.Metrics.Histogram

namespace Petrel

open Framework

/-! ## §1. The loop over the windows. -/

section OneMinute

variable {D : Type} [Field D] [LinearOrder D]

/-- One turn of the loop of `get_1min_histogram`. -/
def mergeWindow (cfg : TimerConfig D) (aggregate hist : Histogram D) : Histogram D :=
  let aggregate :=
    { aggregate with sum := aggregate.sum + hist.sum, count := aggregate.count + hist.count }
  let aggregate := (List.range (cfg.numOfBins + 1)).foldl
    (fun (a : Histogram D) i => a.updateBin i (hist.binCount i)) aggregate
  let aggregate := if aggregate.min > hist.min then { aggregate with min := hist.min } else aggregate
  if aggregate.max < hist.max then { aggregate with max := hist.max } else aggregate

/-- `get_1min_histogram`.  `numericMax` is the greatest finite `double`. -/
def get1minHistogram (cfg : TimerConfig D) (numericMax : D) (s : TimerState D) : Histogram D :=
  let aggregate := Histogram.new cfg
  if s.minValues.length > 0 then
    let aggregate := s.minValues.foldl (mergeWindow cfg) { aggregate with min := numericMax }
    if aggregate.count > 0 then { aggregate with avg := aggregate.sum / (aggregate.count : D) }
    else aggregate
  else aggregate

omit [Field D] [LinearOrder D] in
/-- The loop over the bins adds the counts of the other histogram. -/
theorem foldl_updateBin (hist : Histogram D) (n : Nat) (a : Histogram D) (hn : n ≤ a.dist.length) :
    ∃ dist, (List.range n).foldl (fun (a : Histogram D) i => a.updateBin i (hist.binCount i)) a =
        { a with dist := dist } ∧
      dist.map Prod.fst = a.dist.map Prod.fst ∧
      ∀ j, ({ a with dist := dist } : Histogram D).binCount j =
        a.binCount j + if j < n then hist.binCount j else 0 := by
  induction n with
  | zero => exact ⟨a.dist, rfl, rfl, fun j => rfl⟩
  | succ n ih =>
      obtain ⟨dist, hfold, hlowers, hcounts⟩ := ih (Nat.le_of_succ_le hn)
      have hlength : dist.length = a.dist.length := by
        rw [← List.length_map (f := Prod.fst), hlowers, List.length_map]
      rw [List.range_succ, List.foldl_append, hfold]
      refine ⟨_, rfl, (lowers_updateBin _ _ _).trans hlowers, ?_⟩
      intro j
      have hupdate := binCount_updateBin { a with dist := dist } (i := n) (by rw [hlength]; omega)
        (hist.binCount n) j
      refine hupdate.trans ?_
      rw [hcounts]
      -- bin `n` is updated in this turn, the bins before it were
      rcases Nat.lt_trichotomy j n with hlt | rfl | hlt
      · rw [if_pos hlt, if_pos (Nat.lt_succ_of_lt hlt), if_neg (Nat.ne_of_lt hlt), Nat.add_zero]
      · rw [if_neg (Nat.lt_irrefl j), if_pos (Nat.lt_succ_self j), if_pos rfl, Nat.add_zero]
      · rw [if_neg (Nat.lt_asymm hlt), if_neg (by omega), if_neg (by omega)]

omit [Field D] in
theorem ite_min (a : Histogram D) (m : D) :
    (if a.min > m then { a with min := m } else a) = { a with min := min a.min m } := by
  by_cases h : a.min > m
  · rw [if_pos h, min_eq_right (le_of_lt h)]
  · rw [if_neg h, min_eq_left (not_lt.mp h)]

omit [Field D] in
theorem ite_max (a : Histogram D) (m : D) :
    (if a.max < m then { a with max := m } else a) = { a with max := max a.max m } := by
  by_cases h : a.max < m
  · rw [if_pos h, max_eq_right (le_of_lt h)]
  · rw [if_neg h, max_eq_left (not_lt.mp h)]

/-- **One turn of the loop**, field by field. -/
theorem mergeWindow_eq (cfg : TimerConfig D) {a hist : Histogram D}
    (ha : a.dist.length = cfg.numOfBins + 1) (hhist : hist.dist.length = cfg.numOfBins + 1) :
    ∃ dist, mergeWindow cfg a hist = ⟨min a.min hist.min, max a.max hist.max, a.avg,
        a.sum + hist.sum, a.count + hist.count, dist⟩ ∧
      dist.map Prod.fst = a.dist.map Prod.fst ∧
      ∀ j, (mergeWindow cfg a hist).binCount j = a.binCount j + hist.binCount j := by
  obtain ⟨dist, hfold, hlowers, hcounts⟩ := foldl_updateBin hist (cfg.numOfBins + 1)
    { a with sum := a.sum + hist.sum, count := a.count + hist.count } (Nat.le_of_eq ha.symm)
  have hmerge : mergeWindow cfg a hist = ⟨min a.min hist.min, max a.max hist.max, a.avg,
      a.sum + hist.sum, a.count + hist.count, dist⟩ := by
    unfold mergeWindow
    simp only [hfold]
    rw [ite_max, ite_min ⟨a.min, a.max, a.avg, a.sum + hist.sum, a.count + hist.count, dist⟩]
  refine ⟨dist, hmerge, hlowers, ?_⟩
  intro j
  rw [hmerge]
  refine (hcounts j).trans ?_
  by_cases hj : j < cfg.numOfBins + 1
  · rw [if_pos hj]
    rfl
  · -- there are no more bins
    have hnone : hist.dist[j]? = none := List.getElem?_eq_none (by omega)
    rw [if_neg hj]
    show a.binCount j + 0 = a.binCount j + ((hist.dist[j]?).map Prod.snd).getD 0
    rw [hnone]
    rfl

theorem length_histogramOf (cfg : TimerConfig D) (data : List D) :
    (histogramOf cfg data).dist.length = cfg.numOfBins + 1 := by
  rw [← List.length_map (f := Prod.fst), lowers_histogramOf, List.length_map, length_binsFrom]

/-- The samples of the windows, each with its window. -/
def inWindows (windows : List (List D)) : List (List D × D) :=
  windows.flatMap fun w => w.map (Prod.mk w)

/-- The loop has merged the histograms of these windows. -/
structure Merged (cfg : TimerConfig D) (numericMax : D) (a : Histogram D) (windows : List (List D)) :
    Prop where
  count : a.count = windows.flatten.length
  sum : a.sum = windows.flatten.sum
  avg : a.avg = 0
  min_le : ∀ w ∈ windows, a.min ≤ (histogramOf cfg w).min
  min_of : a.min = numericMax ∨ ∃ w ∈ windows, a.min = (histogramOf cfg w).min
  max_nonneg : 0 ≤ a.max
  le_max : ∀ d ∈ windows.flatten, d ≤ a.max
  max_of : a.max = 0 ∨ a.max ∈ windows.flatten
  lowers : a.dist.map Prod.fst = (binsFrom cfg.binSize 0 (cfg.numOfBins + 1)).map Prod.fst
  counts : ∀ j, a.binCount j = (inWindows windows).countP (fun p => placeOf cfg p.1 p.2 = j)

theorem merged_nil (cfg : TimerConfig D) (numericMax : D) :
    Merged cfg numericMax { Histogram.new cfg with min := numericMax } [] where
  count := rfl
  sum := rfl
  avg := rfl
  min_le := fun _ h => absurd h List.not_mem_nil
  min_of := .inl rfl
  max_nonneg := le_rfl
  le_max := fun _ h => absurd h List.not_mem_nil
  max_of := .inl rfl
  lowers := rfl
  counts := fun j => binCount_binsFrom cfg.binSize 0 (cfg.numOfBins + 1) j

/-- **One window more.** -/
theorem Merged.step {cfg : TimerConfig D} {numericMax : D} {a : Histogram D}
    {windows : List (List D)} (h : Merged cfg numericMax a windows) {w : List D}
    (hsorted : w.Pairwise (· ≤ ·)) :
    Merged cfg numericMax (mergeWindow cfg a (histogramOf cfg w)) (windows ++ [w]) := by
  have hlength : a.dist.length = cfg.numOfBins + 1 := by
    rw [← List.length_map (f := Prod.fst), h.lowers, List.length_map, length_binsFrom]
  obtain ⟨dist, hmerge, hlowers, hcounts⟩ :=
    mergeWindow_eq cfg hlength (length_histogramOf cfg w)
  have hof := histogramOf_summarizes cfg hsorted
  have hflatten : (windows ++ [w]).flatten = windows.flatten ++ w := by
    rw [List.flatten_append, List.flatten_singleton]
  have hmem : ∀ v, v ∈ windows ++ [w] → v ∈ windows ∨ v = w := fun v hv =>
    (List.mem_append.mp hv).imp_right List.mem_singleton.mp
  refine
    { count := ?_, sum := ?_, avg := ?_, min_le := ?_, min_of := ?_, max_nonneg := ?_, le_max := ?_,
      max_of := ?_, lowers := ?_, counts := ?_ }
  · rw [hmerge, hflatten, List.length_append, ← h.count, ← hof.count]
  · rw [hmerge, hflatten, List.sum_append, ← h.sum, ← hof.sum]
  · rw [hmerge]
    exact h.avg
  · intro v hv
    rw [hmerge]
    rcases hmem v hv with hv | rfl
    · exact (min_le_left _ _).trans (h.min_le v hv)
    · exact min_le_right _ _
  · rw [hmerge]
    rcases min_choice a.min (histogramOf cfg w).min with hmin | hmin
    · refine h.min_of.imp hmin.trans ?_
      rintro ⟨v, hv, heq⟩
      exact ⟨v, List.mem_append_left _ hv, hmin.trans heq⟩
    · exact .inr ⟨w, List.mem_append_right _ (List.mem_singleton.mpr rfl), hmin⟩
  · rw [hmerge]
    exact h.max_nonneg.trans (le_max_left _ _)
  · intro d hd
    rw [hmerge]
    rw [hflatten, List.mem_append] at hd
    rcases hd with hd | hd
    · exact (h.le_max d hd).trans (le_max_left _ _)
    · exact ((hof.max (List.ne_nil_of_mem hd)).2 hd).trans (le_max_right _ _)
  · rw [hmerge, hflatten]
    rcases max_choice a.max (histogramOf cfg w).max with hmax | hmax
    · exact h.max_of.imp hmax.trans fun hin => List.mem_append_left _ (hmax.symm ▸ hin)
    · by_cases hnil : w = []
      · exact .inl (hmax.trans (hof.max_nil hnil))
      · exact .inr (List.mem_append_right _ (hmax.symm ▸ (hof.max hnil).1))
  · rw [hmerge]
    exact hlowers.trans h.lowers
  · intro j
    have hwindow : (inWindows [w]).countP (fun p => placeOf cfg p.1 p.2 = j) =
        w.countP (fun d => placeOf cfg w d = j) := by
      unfold inWindows
      rw [List.flatMap_singleton, List.countP_map]
      rfl
    rw [hcounts, h.counts, binCount_placeOf cfg w hsorted, ← hwindow, ← List.countP_append]
    unfold inWindows
    rw [List.flatMap_append]

/-- **The whole loop.** -/
theorem merged_foldl (cfg : TimerConfig D) (numericMax : D) (windows : List (List D))
    (hsorted : ∀ w ∈ windows, w.Pairwise (· ≤ ·)) :
    Merged cfg numericMax ((windows.map (histogramOf cfg)).foldl (mergeWindow cfg)
      { Histogram.new cfg with min := numericMax }) windows := by
  induction windows using List.reverseRecOn with
  | nil => exact merged_nil cfg numericMax
  | append_singleton windows w ih =>
      rw [List.map_append, List.map_singleton, List.foldl_append]
      exact (ih fun v hv => hsorted v (List.mem_append_left _ hv)).step
        (hsorted w (List.mem_append_right _ (List.mem_singleton.mpr rfl)))

/-! ## §2. When the bins of the windows add up. -/

omit [Field D] [LinearOrder D] in
theorem mem_inWindows {windows : List (List D)} {w : List D} {d : D} :
    (w, d) ∈ inWindows windows ↔ w ∈ windows ∧ d ∈ w := by
  unfold inWindows
  simp

omit [Field D] [LinearOrder D] in
theorem inWindows_snd (windows : List (List D)) :
    (inWindows windows).map Prod.snd = windows.flatten := by
  unfold inWindows
  rw [List.map_flatMap]
  simp [List.flatMap_id', Function.comp_def]

/-- A window and all windows together agree on a bin being entered, if a sample
of the window is less than one above its bound. -/
def BinsAgree (cfg : TimerConfig D) (windows : List (List D)) : Prop :=
  ∀ w ∈ windows, ∀ d ∈ w, ∀ i, i < binOf cfg d → d < upperBound cfg i + 1 →
    (Entered cfg w i ↔ Entered cfg windows.flatten i)

theorem binsAgree_iff (cfg : TimerConfig D) (windows : List (List D)) :
    BinsAgree cfg windows ↔
      ∀ p ∈ inWindows windows, placeOf cfg p.1 p.2 = placeOf cfg windows.flatten p.2 := by
  constructor
  · rintro h ⟨w, d⟩ hp
    obtain ⟨hw, hd⟩ := mem_inWindows.mp hp
    exact placeOf_eq_iff.mpr (h w hw d hd)
  · intro h w hw d hd
    exact placeOf_eq_iff.mp (h (w, d) (mem_inWindows.mpr ⟨hw, hd⟩))

/-- Whole nanoseconds are not that close to a bound. -/
theorem binsAgree_of_offBounds {cfg : TimerConfig D} {windows : List (List D)}
    (h : ∀ d ∈ windows.flatten, OffBounds cfg d) : BinsAgree cfg windows := by
  intro w hw d hd i hi hlt
  exact absurd hlt ((h d (List.mem_flatten.mpr ⟨w, hw, hd⟩)).not_lt hi)

/-- Where one test implies the other and the counts are equal, the tests are. -/
theorem of_countP_eq {α : Type} {l : List α} {p q : α → Bool} (himp : ∀ a ∈ l, p a → q a)
    (heq : l.countP p = l.countP q) : ∀ a ∈ l, q a → p a := by
  have hboth : (l.filter q).countP p = (l.filter q).length := by
    rw [List.countP_filter, ← List.countP_eq_length_filter, ← heq]
    refine List.countP_congr fun a ha => ?_
    rw [Bool.and_eq_true]
    exact ⟨And.left, fun h => ⟨h, himp a ha h⟩⟩
  intro a ha hq
  exact List.countP_eq_length.mp hboth a (List.mem_filter.mpr ⟨ha, hq⟩)

/-- A bin that the loop over all samples enters holds there what it holds in a
window, as long as they agree on the bins before. -/
theorem placeOf_window {cfg : TimerConfig D} {w all : List D} {d : D} {j : Nat}
    (hentered : Entered cfg all j) (hplace : placeOf cfg w d = j)
    (hbefore : ∀ i, i < j → placeOf cfg all d = i → placeOf cfg w d = i) :
    placeOf cfg all d = j := by
  rcases placeOf_cases cfg w d with hown | ⟨hlt, hlow, _⟩
  · -- the value has its own bin in the window, and no later one elsewhere
    have hnot : ¬ placeOf cfg all d < j := by
      intro hlt
      have heq := hbefore _ hlt rfl
      omega
    rcases placeOf_cases cfg all d with hall | ⟨hall, _, _⟩
    · omega
    · omega
  · rw [hplace] at hlt hlow
    exact placeOf_of_entered hentered hlt hlow

/-- **The bins of the windows add up** just if the windows put every sample where
it is among all samples: the first bin that they do not agree on has too many
samples in the sum, or too few. -/
theorem sum_places_iff (cfg : TimerConfig D) (windows : List (List D)) :
    (∀ j, (inWindows windows).countP (fun p => placeOf cfg p.1 p.2 = j) =
        windows.flatten.countP (fun d => placeOf cfg windows.flatten d = j)) ↔
      BinsAgree cfg windows := by
  have hall : ∀ j, windows.flatten.countP (fun d => placeOf cfg windows.flatten d = j) =
      (inWindows windows).countP (fun p => placeOf cfg windows.flatten p.2 = j) := by
    intro j
    conv_lhs => rw [← inWindows_snd windows, List.countP_map]
    rw [inWindows_snd]
    rfl
  rw [binsAgree_iff]
  constructor
  · intro hcounts
    -- by the bin: both loops put the same samples in it
    have hplaces : ∀ j, ∀ p ∈ inWindows windows,
        placeOf cfg p.1 p.2 = j ↔ placeOf cfg windows.flatten p.2 = j := by
      intro j
      induction j using Nat.strong_induction_on with
      | _ j ih =>
          have hcount := (hcounts j).trans (hall j)
          by_cases hentered : Entered cfg windows.flatten j
          · have himp : ∀ p ∈ inWindows windows, placeOf cfg p.1 p.2 = j →
                placeOf cfg windows.flatten p.2 = j := fun p hp hplace =>
              placeOf_window hentered hplace fun i hi h => (ih i hi p hp).mpr h
            have hback := of_countP_eq (fun p hp h => by simpa using himp p hp (by simpa using h)) hcount
            exact fun p hp => ⟨himp p hp, fun h => by simpa using hback p hp (by simpa using h)⟩
          · -- nothing is in a bin that the loop does not enter
            have hnone : ∀ p ∈ inWindows windows, placeOf cfg windows.flatten p.2 ≠ j := by
              rintro ⟨w, d⟩ hp rfl
              obtain ⟨hw, hd⟩ := mem_inWindows.mp hp
              exact hentered (entered_placeOf cfg (List.mem_flatten.mpr ⟨w, hw, hd⟩))
            have hzero : (inWindows windows).countP (fun p => placeOf cfg windows.flatten p.2 = j) = 0 :=
              List.countP_eq_zero.mpr fun p hp => by simpa using hnone p hp
            rw [hzero, List.countP_eq_zero] at hcount
            exact fun p hp => iff_of_false (by simpa using hcount p hp) (hnone p hp)
    exact fun p hp => ((hplaces _ p hp).mp rfl).symm
  · intro hplaces j
    rw [hall]
    refine List.countP_congr fun p hp => ?_
    rw [hplaces p hp]

/-! ## §3. The histogram of one minute. -/

/-- The minimum of the windows is that of their samples, if no placeholder of an
empty window comes before it. -/
def NoPlaceholder (windows : List (List D)) : Prop :=
  (∀ w ∈ windows, w ≠ []) ∨ windows.flatten = [] ∨ 0 ∈ windows.flatten

theorem Merged.min_eq_iff {cfg : TimerConfig D} {numericMax : D} {a : Histogram D}
    {windows : List (List D)} (h : Merged cfg numericMax a windows) (hne : windows ≠ [])
    (hsorted : ∀ w ∈ windows, w.Pairwise (· ≤ ·)) (hmax : 0 ≤ numericMax)
    (hsamples : ∀ d ∈ windows.flatten, 0 ≤ d ∧ d ≤ numericMax) {all : Histogram D}
    (hall : all.Summarizes windows.flatten) : a.min = all.min ↔ NoPlaceholder windows := by
  have hof : ∀ w ∈ windows, (histogramOf cfg w).Summarizes w := fun w hw =>
    histogramOf_summarizes cfg (hsorted w hw)
  have hin : ∀ w ∈ windows, ∀ d ∈ w, d ∈ windows.flatten := fun w hw d hd =>
    List.mem_flatten.mpr ⟨w, hw, hd⟩
  -- an empty window has the placeholder 0
  have hrange : ∀ w ∈ windows, 0 ≤ (histogramOf cfg w).min ∧ (histogramOf cfg w).min ≤ numericMax := by
    intro w hw
    by_cases hnil : w = []
    · rw [(hof w hw).min_nil hnil]
      exact ⟨le_rfl, hmax⟩
    · exact hsamples _ (hin w hw _ ((hof w hw).min hnil).1)
  -- the minimum is that of a window
  have hwindow : ∃ w ∈ windows, a.min = (histogramOf cfg w).min := by
    rcases h.min_of with hstart | hwindow
    · obtain ⟨w, hw⟩ := List.exists_mem_of_ne_nil windows hne
      refine ⟨w, hw, le_antisymm (h.min_le w hw) ?_⟩
      rw [hstart]
      exact (hrange w hw).2
    · exact hwindow
  obtain ⟨w, hw, hmin⟩ := hwindow
  have hnonneg : 0 ≤ a.min := hmin ▸ (hrange w hw).1
  have hle : ∀ d ∈ windows.flatten, a.min ≤ d := by
    intro d hd
    obtain ⟨v, hv, hdv⟩ := List.mem_flatten.mp hd
    exact (h.min_le v hv).trans (((hof v hv).min (List.ne_nil_of_mem hdv)).2 hdv)
  constructor
  · intro heq
    by_cases hfull : ∀ w ∈ windows, w ≠ []
    · exact .inl hfull
    · right
      push Not at hfull
      obtain ⟨v, hv, hnil⟩ := hfull
      have hzero : a.min = 0 := by
        refine le_antisymm ?_ hnonneg
        rw [← (hof v hv).min_nil hnil]
        exact h.min_le v hv
      by_cases hflat : windows.flatten = []
      · exact .inl hflat
      · right
        rw [← hzero, heq]
        exact (hall.min hflat).1
  · rintro (hfull | hflat | hzero)
    · have hmem := hin w hw _ ((hof w hw).min (hfull w hw)).1
      have hleast : IsLeast {d | d ∈ windows.flatten} a.min := ⟨hmin ▸ hmem, fun d hd => hle d hd⟩
      exact hleast.unique (hall.min (List.ne_nil_of_mem hmem))
    · have hnil : w = [] := List.eq_nil_iff_forall_not_mem.mpr fun d hd =>
        absurd (hin w hw d hd) (hflat ▸ List.not_mem_nil)
      rw [hmin, (hof w hw).min_nil hnil, hall.min_nil hflat]
    · have hleast := hall.min (List.ne_nil_of_mem hzero)
      refine le_antisymm (hle _ hleast.1) ?_
      exact (hleast.2 hzero).trans hnonneg

/-- The sample lists of the retained windows. -/
def TimerState.windows (s : TimerState D) : List (List D) := lastSix (s.published.map Prod.snd)

/-- What the aggregation fiber sorted stays sorted until it is published. -/
structure TimerSorted (s : TimerState D) : Prop where
  published : ∀ p ∈ s.published, p.2.Pairwise (· ≤ ·)
  binned : ∀ data hist, s.aggregate = .binned data hist → (s.times data).Pairwise (· ≤ ·)
  cleared : ∀ hist samples, s.aggregate = .cleared hist samples → samples.Pairwise (· ≤ ·)

theorem TimerSorted.update {cfg : TimerConfig D} {s : TimerState D} (hinv : TimerInv cfg s)
    (h : TimerSorted s) (t : D) :
    TimerSorted
      { s.setTimes s.timesIdx (s.times s.timesIdx ++ [t]) with updated := s.updated ++ [t] } := by
  refine ⟨h.published, ?_, h.cleared⟩
  intro data hist hpc
  -- the sample goes to the other buffer
  have hagg := hinv.aggregating
  rw [show s.aggregate = .binned data hist from hpc] at hagg
  show ((s.setTimes s.timesIdx _).times data).Pairwise (· ≤ ·)
  rw [setTimes_of_ne s hagg.1]
  exact h.binned data hist hpc

theorem TimerSorted.aggregate {cfg : TimerConfig D} {s : TimerState D} (h : TimerSorted s) :
    TimerSorted (aggregateStep cfg s) := by
  unfold aggregateStep
  cases hpc : s.aggregate with
  | idle =>
      dsimp only
      split
      · exact ⟨h.published, fun _ _ h => (nomatch h), fun _ _ h => (nomatch h)⟩
      · exact ⟨h.published, fun _ _ h => (nomatch h), fun _ _ h => (nomatch h)⟩
  | picked data => exact ⟨h.published, fun _ _ h => (nomatch h), fun _ _ h => (nomatch h)⟩
  | switched data =>
      dsimp only
      split
      · refine ⟨h.published, fun _ _ h => (nomatch h), fun _ _ h => ?_⟩
        cases h
        exact .nil
      · refine ⟨h.published, fun _ _ h => ?_, fun _ _ h => nomatch h⟩
        cases h
        show ((s.setTimes data _).times data).Pairwise (· ≤ ·)
        rw [setTimes_self]
        exact sortTimes_sorted _
  | binned data hist =>
      refine ⟨h.published, fun _ _ h => (nomatch h), fun _ _ heq => ?_⟩
      cases heq
      exact h.binned data hist hpc
  | cleared hist samples =>
      refine ⟨?_, fun _ _ h => (nomatch h), fun _ _ h => nomatch h⟩
      intro p hp
      rcases List.mem_append.mp hp with hp | hp
      · exact h.published p hp
      · rw [List.mem_singleton.mp hp]
        exact h.cleared hist samples hpc

theorem timer_sorted_reach {cfg : TimerConfig D} {s : TimerState D} (h : (timerMachine cfg).Reach s) :
    TimerSorted s := by
  refine h.invariant_of (fun s hs => timer_inv_reach hs) ?_ ?_
  · exact ⟨fun _ h => absurd h List.not_mem_nil, fun _ _ h => (nomatch h), fun _ _ h => (nomatch h)⟩
  · intro s a t hinv hs _ hstep
    cases a with
    | update x => exact Option.some.inj hstep ▸ hs.update hinv x
    | aggregate => exact Option.some.inj hstep ▸ hs.aggregate

/-- The retained windows, as the aggregation fiber leaves them. -/
theorem minValues_eq {cfg : TimerConfig D} {s : TimerState D} (h : TimerInv cfg s) :
    s.minValues = s.windows.map (histogramOf cfg) := by
  have hmade : s.published.map Prod.fst = (s.published.map Prod.snd).map (histogramOf cfg) := by
    rw [List.map_map]
    exact List.map_congr_left fun p hp => h.made p hp
  rw [h.windows, hmade]
  unfold TimerState.windows lastSix
  rw [List.map_drop, List.length_map]

theorem get1minHistogram_of_ne (cfg : TimerConfig D) (numericMax : D) {s : TimerState D}
    (hne : s.minValues ≠ []) {a : Histogram D}
    (ha : s.minValues.foldl (mergeWindow cfg) { Histogram.new cfg with min := numericMax } = a) :
    get1minHistogram cfg numericMax s =
      { a with avg := if a.count > 0 then a.sum / (a.count : D) else a.avg } := by
  subst ha
  unfold get1minHistogram
  rw [if_pos (List.length_pos_iff.mpr hne)]
  dsimp only
  split <;> rfl

/-- The merged windows, once their minimum is right. -/
theorem Merged.summarizes {cfg : TimerConfig D} {numericMax : D} {a : Histogram D}
    {windows : List (List D)} (h : Merged cfg numericMax a windows)
    (hsamples : ∀ d ∈ windows.flatten, 0 ≤ d) {all : Histogram D}
    (hall : all.Summarizes windows.flatten) (hmin : a.min = all.min) :
    Histogram.Summarizes { a with avg := if a.count > 0 then a.sum / (a.count : D) else a.avg }
      windows.flatten where
  count := h.count
  sum := h.sum
  avg := by
    dsimp only
    rw [h.count, h.sum, h.avg]
    split
    · rfl
    · rename_i hzero
      rw [List.eq_nil_of_length_eq_zero (Nat.eq_zero_of_not_pos hzero)]
      exact (zero_div _).symm
  min_nil := fun hnil => hmin.trans (hall.min_nil hnil)
  max_nil := fun hnil => h.max_of.resolve_right (hnil ▸ List.not_mem_nil)
  min := fun hne => hmin ▸ hall.min hne
  max := by
    intro hne
    refine ⟨?_, fun d hd => h.le_max d hd⟩
    rcases h.max_of with hzero | hmem
    · -- then all samples are 0
      obtain ⟨d, hd⟩ := List.exists_mem_of_ne_nil _ hne
      have hle : d ≤ a.max := h.le_max d hd
      have hd0 : d = a.max := le_antisymm hle (hzero ▸ hsamples d hd)
      exact hd0 ▸ hd
    · exact hmem

/-- A retained sample was passed to `update`. -/
theorem mem_updated_of_retained {cfg : TimerConfig D} {s : TimerState D} (h : TimerInv cfg s) {d : D}
    (hd : d ∈ s.windows.flatten) : d ∈ s.updated := by
  obtain ⟨w, hw, hdw⟩ := List.mem_flatten.mp hd
  obtain ⟨p, hp, rfl⟩ := List.mem_map.mp (List.mem_of_mem_drop hw)
  rw [← Multiset.mem_coe, h.conserved]
  refine Multiset.mem_add.mpr (.inl (Multiset.mem_add.mpr (.inl ?_)))
  exact Multiset.mem_coe.mpr (List.mem_flatMap.mpr ⟨p, hp, hdw⟩)

/-- The retained windows are sorted. -/
theorem windows_sorted {cfg : TimerConfig D} {s : TimerState D} (h : (timerMachine cfg).Reach s) :
    ∀ w ∈ s.windows, w.Pairwise (· ≤ ·) := by
  intro w hw
  obtain ⟨p, hp, rfl⟩ := List.mem_map.mp (List.mem_of_mem_drop hw)
  exact (timer_sorted_reach h).published p hp

/-- The merged histograms and the one of all samples have the same bins, if the
windows agree with all samples. -/
theorem Merged.counts_iff {cfg : TimerConfig D} {numericMax : D} {a : Histogram D}
    {windows : List (List D)} (h : Merged cfg numericMax a windows) :
    (∀ j, a.binCount j = (histogramOf cfg (sortTimes windows.flatten)).binCount j) ↔
      BinsAgree cfg windows := by
  have hperm := sortTimes_perm windows.flatten
  rw [← sum_places_iff]
  refine forall_congr' fun j => ?_
  have hall : (histogramOf cfg (sortTimes windows.flatten)).binCount j =
      windows.flatten.countP (fun d => placeOf cfg windows.flatten d = j) := by
    rw [binCount_placeOf cfg _ (sortTimes_sorted windows.flatten), hperm.countP_eq]
    refine List.countP_congr fun d _ => ?_
    rw [placeOf_congr (fun e => hperm.mem_iff) d]
  rw [h.counts, hall]

/-- **THE HISTOGRAM OF ONE MINUTE**, after any run of a timer whose samples are
not negative.  It is the histogram of all retained samples just if

  * no window among them is empty, or all are, or the least sample is 0 anyway:
    an empty window has 0 for its minimum, and
  * a sample that is less than one above a bound is in the bin below in its
    window just if it would be there among all samples. -/
theorem oneMinute_exact_iff (cfg : TimerConfig D) {numericMax : D} (hmax : 0 ≤ numericMax)
    {s : TimerState D} (h : (timerMachine cfg).Reach s)
    (hsamples : ∀ d ∈ s.updated, 0 ≤ d ∧ d ≤ numericMax) :
    get1minHistogram cfg numericMax s = histogramOf cfg (sortTimes s.windows.flatten) ↔
      NoPlaceholder s.windows ∧ BinsAgree cfg s.windows := by
  have hinv := timer_inv_reach h
  have hsorted := windows_sorted h
  have hrange : ∀ d ∈ s.windows.flatten, 0 ≤ d ∧ d ≤ numericMax := fun d hd =>
    hsamples d (mem_updated_of_retained hinv hd)
  have hperm := sortTimes_perm s.windows.flatten
  have hall := (histogramOf_summarizes cfg (sortTimes_sorted s.windows.flatten)).perm hperm
  by_cases hne : s.windows = []
  · -- without a window both are the histogram without values
    have hvalues : s.minValues = [] := by rw [minValues_eq hinv, hne, List.map_nil]
    have hnew : get1minHistogram cfg numericMax s = Histogram.new cfg := by
      unfold get1minHistogram
      rw [hvalues]
      rfl
    have hagree : BinsAgree cfg s.windows := fun w hw => absurd hw (hne ▸ List.not_mem_nil)
    refine iff_of_true ?_ ⟨.inr (.inl (by rw [hne, List.flatten_nil])), hagree⟩
    rw [hnew, hne]
    rfl
  have hmerged := merged_foldl cfg numericMax s.windows hsorted
  rw [← minValues_eq hinv] at hmerged
  have hvalues : s.minValues ≠ [] := by
    rw [minValues_eq hinv]
    exact fun hnil => hne (List.map_eq_nil_iff.mp hnil)
  rw [get1minHistogram_of_ne cfg numericMax hvalues rfl,
    ← hmerged.min_eq_iff hne hsorted hmax hrange hall, ← hmerged.counts_iff]
  constructor
  · intro heq
    refine ⟨by rw [← heq], fun j => ?_⟩
    rw [← heq]
    rfl
  · rintro ⟨hmin, hcounts⟩
    have hsum := hmerged.summarizes (fun d hd => (hrange d hd).1) hall hmin
    refine hsum.eq_of_counts hall ?_ hcounts
    exact hmerged.lowers.trans (lowers_histogramOf cfg _).symm

end OneMinute

/-- The default configuration, in exact arithmetic. -/
def exactTimer : TimerConfig ℚ := ⟨10, 1000000⟩

/-- The greatest finite `double`. -/
def doubleMax : ℚ := ((2 ^ 53 - 1) * 2 ^ 971 : Nat)

/-- A window with a sample, up to its publication. -/
def sampleWindow (t : ℚ) : List (TimerAction ℚ) := .update t :: List.replicate 14 .aggregate

/-- Two windows, none of them empty. -/
theorem oneMinute_exact_iff_full :
    ∃ s, (timerMachine exactTimer).Reach s ∧ s.windows = [[7], [5]] ∧
      get1minHistogram exactTimer doubleMax s = histogramOf exactTimer (sortTimes [7, 5]) := by
  obtain ⟨s, hs, hupdated, hwindows⟩ := (timerMachine exactTimer).exists_reach_of_run
    (sampleWindow 7 ++ sampleWindow 5)
    (fun s => (∀ d ∈ s.updated, 0 ≤ d ∧ d ≤ doubleMax) ∧ s.windows = [[7], [5]])
    (by decide +kernel)
  have hseven := offBounds_intCast (D := ℚ) 10 1000000 7
  have hfive := offBounds_intCast (D := ℚ) 10 1000000 5
  rw [Int.cast_ofNat, Int.cast_ofNat] at hseven hfive
  have hagree : BinsAgree exactTimer [[7], [5]] :=
    binsAgree_of_offBounds (by simpa using ⟨hseven, hfive⟩)
  have hexact := oneMinute_exact_iff exactTimer (by decide +kernel) hs hupdated
  rw [hwindows] at hexact
  exact ⟨s, hs, hwindows, hexact.mpr ⟨.inl (by decide), hagree⟩⟩

/-- **An empty window hides the minimum**: after a window without samples and
one with the sample 5 the minimum is 0. -/
theorem empty_window_hides_minimum :
    ¬ ∀ s, (timerMachine exactTimer).Reach s → (∀ d ∈ s.updated, 0 ≤ d ∧ d ≤ doubleMax) →
      get1minHistogram exactTimer doubleMax s =
        histogramOf exactTimer (sortTimes s.windows.flatten) := by
  intro h
  obtain ⟨s, hs, hupdated, hmin, hall⟩ := (timerMachine exactTimer).exists_reach_of_run
    (List.replicate 13 .aggregate ++ sampleWindow 5)
    (fun s => (∀ d ∈ s.updated, 0 ≤ d ∧ d ≤ doubleMax) ∧
      (get1minHistogram exactTimer doubleMax s).min = 0 ∧
      (histogramOf exactTimer (sortTimes s.windows.flatten)).min = 5)
    (by decide +kernel)
  rw [h s hs hupdated, hall] at hmin
  exact absurd hmin (by decide)

/-- A fraction above a bound is in the lower bin or in the next one, as the
window goes: two windows need not agree on it. -/
example :
    (histogramOf exactTimer [2000000 + 1 / 2]).binCount 2 = 1 ∧
      (histogramOf exactTimer [1500000, 2000000 + 1 / 2]).binCount 2 = 0 := by
  decide +kernel

end Petrel
