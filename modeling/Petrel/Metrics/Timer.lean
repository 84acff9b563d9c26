/-
  Petrel.Metrics.Timer — the timer metric: two sample buffers and the
  histograms made of them.

  `update` appends a sample to the active buffer under the lock.  The one
  aggregation fiber picks the active buffer every tenth second, switches the
  index under the lock, and then sorts, bins and clears the picked buffer
  OUTSIDE the lock, while updates go on in the other one.

  Main results:
    * `histogramOf_accounts` — the count of a histogram is the sum of its bins
      and the number of samples it was made of.
    * `timer_inv_reach`     — the buffers, in any interleaving.
    * `timer_conserves_samples` — no sample is lost or counted twice.
-/

import Petrel.Framework.Machine

namespace Petrel

open Framework

/-! ## §1. Histograms. -/

/-- The ctor's parameters. -/
structure TimerConfig (D : Type) where
  numOfBins : Nat
  binSize : D

structure Histogram (D : Type) where
  min : D
  max : D
  avg : D
  sum : D
  count : Nat
  dist : List (D × Nat)

section Bins

variable {D : Type}

/-- The bins of the ctor's loop, from a lower bound on. -/
def binsFrom [Add D] (binSize lower : D) : Nat → List (D × Nat)
  | 0 => []
  | n + 1 => (lower, 0) :: binsFrom binSize (lower + binSize) n

def Histogram.updateBin (h : Histogram D) (bin count : Nat) : Histogram D :=
  { h with dist := h.dist.modify bin (fun p => (p.1, p.2 + count)) }

/-- The sum of the bins. -/
def Histogram.inBins (h : Histogram D) : Nat := (h.dist.map Prod.snd).sum

/-- The inner loop: the next bins, as long as the value is above the bin and
`left` bins are left. -/
def nextBin [Add D] [LT D] [DecidableLT D] (binSize d : D) : Nat → Nat → D → Nat × D
  | 0, i, upper => (i, upper)
  | left + 1, i, upper =>
      if upper < d then nextBin binSize d left (i + 1) (upper + binSize) else (i, upper)

theorem length_binsFrom [Add D] (binSize lower : D) (n : Nat) :
    (binsFrom binSize lower n).length = n := by
  induction n generalizing lower with
  | zero => rfl
  | succ n ih => simp [binsFrom, ih]

theorem inBins_binsFrom [Add D] (binSize lower : D) (n : Nat) :
    ((binsFrom binSize lower n).map Prod.snd).sum = 0 := by
  induction n generalizing lower with
  | zero => rfl
  | succ n ih => simp [binsFrom, ih]

/-- Adding to an existing entry adds to the sum. -/
theorem sum_modify_add (dist : List (D × Nat)) (bin count : Nat) (h : bin < dist.length) :
    ((dist.modify bin (fun p => (p.1, p.2 + count))).map Prod.snd).sum =
      (dist.map Prod.snd).sum + count := by
  induction dist generalizing bin with
  | nil => simp at h
  | cons p dist ih =>
      cases bin with
      | zero =>
          simp only [List.modify_zero_cons, List.map_cons, List.sum_cons]
          omega
      | succ bin =>
          have hrest := ih bin (by simpa using h)
          simp only [List.modify_succ_cons, List.map_cons, List.sum_cons, hrest]
          omega

theorem inBins_updateBin (h : Histogram D) (bin count : Nat) (hbin : bin < h.dist.length) :
    (h.updateBin bin count).inBins = h.inBins + count :=
  sum_modify_add h.dist bin count hbin

theorem nextBin_le [Add D] [LT D] [DecidableLT D] (binSize d : D) (left i : Nat) (upper : D) :
    (nextBin binSize d left i upper).1 ≤ i + left := by
  induction left generalizing i upper with
  | zero => exact Nat.le_refl i
  | succ left ih =>
      unfold nextBin
      -- each turn of the loop uses up one of the bins that are left
      split
      · have := ih (i + 1) (upper + binSize)
        omega
      · exact Nat.le_add_right i (left + 1)

/-- The locals of the distribution loop: the values counted for bin `i` are
not in the histogram yet. -/
structure BinLoop (D : Type) where
  hist : Histogram D
  count : Nat
  i : Nat
  upper : D

/-- The loop invariant: the `n` values seen so far are in the bins or in the
running count, and `i` is a bin of the histogram. -/
structure BinLoop.Counts (cfg : TimerConfig D) (b : BinLoop D) (total n : Nat) : Prop where
  seen : b.hist.inBins + b.count = n
  bin : b.i ≤ cfg.numOfBins
  bins : b.hist.dist.length = cfg.numOfBins + 1
  total : b.hist.count = total

/-- The flush after the loop leaves no value out. -/
theorem BinLoop.Counts.flush {cfg : TimerConfig D} {b : BinLoop D} {total n : Nat}
    (h : b.Counts cfg total n) : (b.hist.updateBin b.i b.count).inBins = n := by
  -- there is one bin more than the loop can reach
  have hbin : b.i < b.hist.dist.length := by
    have := h.bin
    rw [h.bins]
    omega
  rw [inBins_updateBin _ _ _ hbin]
  exact h.seen

variable [One D] [Add D] [LT D] [DecidableLT D]

def binStep (cfg : TimerConfig D) (b : BinLoop D) (d : D) : BinLoop D :=
  if d < b.upper + 1 ∨ b.i = cfg.numOfBins then { b with count := b.count + 1 }
  else
    -- flush the running count, and look for the bin of this value
    let next := nextBin cfg.binSize d (cfg.numOfBins - b.i) b.i b.upper
    ⟨b.hist.updateBin b.i b.count, 1, next.1, next.2⟩

theorem BinLoop.Counts.step {cfg : TimerConfig D} {b : BinLoop D} {total n : Nat}
    (h : b.Counts cfg total n) (d : D) : (binStep cfg b d).Counts cfg total (n + 1) := by
  have hseen := h.seen
  have hbin := h.bin
  unfold binStep
  split
  · exact ⟨by show b.hist.inBins + (b.count + 1) = n + 1; omega, hbin, h.bins, h.total⟩
  · -- the running count goes into bin `i`, this value is the first one of the next bin
    have hle := nextBin_le cfg.binSize d (cfg.numOfBins - b.i) b.i b.upper
    refine ⟨?_, ?_, ?_, h.total⟩
    · show (b.hist.updateBin b.i b.count).inBins + 1 = n + 1
      rw [inBins_updateBin _ _ _ (by rw [h.bins]; omega)]
      omega
    · show (nextBin cfg.binSize d (cfg.numOfBins - b.i) b.i b.upper).1 ≤ cfg.numOfBins
      omega
    · show (b.hist.dist.modify _ _).length = cfg.numOfBins + 1
      rw [List.length_modify]
      exact h.bins

theorem BinLoop.Counts.foldl {cfg : TimerConfig D} {b : BinLoop D} {total n : Nat}
    (h : b.Counts cfg total n) (data : List D) :
    (data.foldl (binStep cfg) b).Counts cfg total (n + data.length) := by
  induction data generalizing b n with
  | nil => exact h
  | cons d data ih =>
      have := ih (h.step d)
      rw [List.foldl_cons, List.length_cons]
      rwa [show n + (data.length + 1) = n + 1 + data.length by omega]

end Bins

/-- `std::sort` by `<`. -/
def sortTimes {D : Type} [LT D] [DecidableLT D] (data : List D) : List D := data.insertionSort (fun x y => ¬ y < x)

theorem sortTimes_coe {D : Type} [LT D] [DecidableLT D] (data : List D) : (sortTimes data : Multiset D) = data :=
  Multiset.coe_eq_coe.mpr (List.perm_insertionSort _ data)

section Histograms

variable {D : Type} [Zero D] [One D] [Add D] [Div D] [NatCast D] [LT D] [DecidableLT D]

/-- The ctor. -/
def Histogram.new (cfg : TimerConfig D) : Histogram D :=
  ⟨0, 0, 0, 0, 0, binsFrom cfg.binSize 0 (cfg.numOfBins + 1)⟩

/-- The histogram of a sorted non-empty buffer before its distribution. -/
def histogramStart (cfg : TimerConfig D) (d : D) (ds : List D) : Histogram D :=
  let data := d :: ds
  let sum := data.foldl (· + ·) 0
  { Histogram.new cfg with
    min := d
    max := data.getLast (List.cons_ne_nil d ds)
    count := data.length
    sum := sum
    avg := sum / (data.length : D) }

/-- The histogram of a sorted buffer: the last running count is flushed after
the loop. -/
def histogramOf (cfg : TimerConfig D) : List D → Histogram D
  | [] => .new cfg
  | d :: ds =>
      -- `dist` is only written by the flushes
      let b := (d :: ds).foldl (binStep cfg) ⟨histogramStart cfg d ds, 0, 0, cfg.binSize⟩
      b.hist.updateBin b.i b.count

/-- A histogram accounts for the samples it was made of. -/
def Histogram.Accounts (h : Histogram D) (samples : List D) : Prop :=
  h.count = h.inBins ∧ h.count = samples.length

/-- **The bin bookkeeping is right**, for every buffer, bin size and number of
bins. -/
theorem histogramOf_accounts (cfg : TimerConfig D) (data : List D) :
    (histogramOf cfg data).Accounts data := by
  cases data with
  | nil => exact ⟨(inBins_binsFrom cfg.binSize 0 (cfg.numOfBins + 1)).symm, rfl⟩
  | cons d ds =>
      -- before the loop all bins are empty
      have hstart : BinLoop.Counts cfg ⟨histogramStart cfg d ds, 0, 0, cfg.binSize⟩
          (d :: ds).length 0 :=
        ⟨inBins_binsFrom cfg.binSize 0 (cfg.numOfBins + 1), Nat.zero_le _,
          length_binsFrom _ _ _, rfl⟩
      have hloop := hstart.foldl (d :: ds)
      have hbins := hloop.flush
      have htotal := hloop.total
      refine ⟨?_, htotal⟩
      show _ = _
      unfold histogramOf
      rw [hbins, Nat.zero_add]
      exact htotal

end Histograms

/-! ## §2. The timer and its aggregation fiber. -/

/-- Where `aggregate` is: the buffer it holds a reference to, and then its
local histogram.  The samples of the last place are a ghost, their buffer is
cleared already. -/
inductive AggregatePc (D : Type) where
  | idle
  | picked (data : Fin 2)
  | switched (data : Fin 2)
  | binned (data : Fin 2) (hist : Histogram D)
  | cleared (hist : Histogram D) (samples : List D)

/-- The timer, and the history of the samples and of the histograms. -/
structure TimerState (D : Type) where
  times : Fin 2 → List D := fun _ => []
  timesIdx : Fin 2 := 0
  minValues : List (Histogram D) := []               -- `m_1min_values`
  aggregateCounter : Nat := 0
  aggregate : AggregatePc D := .idle
  updated : List D := []
  published : List (Histogram D × List D) := []

inductive TimerAction (D : Type) where
  | update (t : D)
  | aggregate            -- the next internal step of the aggregation fiber

section State

variable {D : Type}

def TimerState.setTimes (s : TimerState D) (i : Fin 2) (data : List D) : TimerState D :=
  { s with times := Function.update s.times i data }

/-- Push to the list of the windows, and erase the first one if there are more
than six. -/
def pushWindow (windows : List (Histogram D)) (hist : Histogram D) : List (Histogram D) :=
  let windows := windows ++ [hist]
  if windows.length > 6 then windows.tail else windows

/-- The samples in the two buffers. -/
def TimerState.buffered (s : TimerState D) : Multiset D := s.times 0 + s.times 1

/-- The samples of the published histograms. -/
def TimerState.inHistograms (s : TimerState D) : Multiset D := s.published.flatMap Prod.snd

/-- The samples of a histogram that is about to be published. -/
def AggregatePc.publishing : AggregatePc D → Multiset D
  | .cleared _ samples => samples
  | _ => 0

/-- The last six of a list. -/
def lastSix {α : Type} (xs : List α) : List α := xs.drop (xs.length - 6)

theorem buffered_setTimes (s : TimerState D) (i : Fin 2) (data : List D) :
    (s.setTimes i data).buffered + (s.times i : Multiset D) = s.buffered + (data : Multiset D) := by
  match i with
  | 0 =>
      show (data : Multiset D) + s.times 1 + s.times 0 = s.times 0 + s.times 1 + data
      abel
  | 1 =>
      show (s.times 0 : Multiset D) + data + s.times 1 = s.times 0 + s.times 1 + data
      abel

@[simp] theorem setTimes_self (s : TimerState D) (i : Fin 2) (data : List D) :
    (s.setTimes i data).times i = data := Function.update_self ..

theorem setTimes_of_ne (s : TimerState D) {i j : Fin 2} (h : i ≠ j) (data : List D) :
    (s.setTimes j data).times i = s.times i := Function.update_of_ne h ..

theorem pushWindow_lastSix (hists : List (Histogram D)) (hist : Histogram D) :
    pushWindow (lastSix hists) hist = lastSix (hists ++ [hist]) := by
  have hlen : (lastSix hists ++ [hist]).length = hists.length - (hists.length - 6) + 1 := by
    simp [lastSix]
  -- the window list is a suffix of the published ones
  have hdrop : lastSix hists ++ [hist] = (hists ++ [hist]).drop (hists.length - 6) :=
    (List.drop_append_of_le_length (Nat.sub_le _ _)).symm
  unfold pushWindow
  by_cases hsix : hists.length < 6
  · rw [if_neg (by rw [hlen]; omega), hdrop]
    have hnone : (hists ++ [hist]).length - 6 = hists.length - 6 := by
      rw [List.length_append, List.length_singleton]
      omega
    unfold lastSix
    rw [hnone]
  · rw [if_pos (by rw [hlen]; omega), hdrop, List.tail_drop]
    have hnext : (hists ++ [hist]).length - 6 = hists.length - 6 + 1 := by
      rw [List.length_append, List.length_singleton]
      omega
    unfold lastSix
    rw [hnext]

end State

section Steps

variable {D : Type} [Zero D] [One D] [Add D] [Div D] [NatCast D] [LT D] [DecidableLT D]

/-- The internal steps of `aggregate`, which the fiber calls every second. -/
def aggregateStep (cfg : TimerConfig D) (s : TimerState D) : TimerState D :=
  match s.aggregate with
  | .idle =>
      if s.aggregateCounter + 1 ≥ 10 then
        { s with aggregateCounter := 0, aggregate := .picked s.timesIdx }
      else { s with aggregateCounter := s.aggregateCounter + 1 }
  -- only the switch of the index is under the lock
  | .picked data => { s with timesIdx := s.timesIdx + 1, aggregate := .switched data }
  | .switched data =>
      -- an empty buffer is neither sorted nor cleared
      if (s.times data).isEmpty then { s with aggregate := .cleared (.new cfg) [] }
      else
        let sorted := sortTimes (s.times data)
        { s.setTimes data sorted with aggregate := .binned data (histogramOf cfg sorted) }
  | .binned data hist => { s.setTimes data [] with aggregate := .cleared hist (s.times data) }
  | .cleared hist samples =>
      { s with
        minValues := pushWindow s.minValues hist
        aggregate := .idle
        published := s.published ++ [(hist, samples)] }

def timerStep (cfg : TimerConfig D) (s : TimerState D) : TimerAction D → Option (TimerState D)
  | .update t =>
      some { s.setTimes s.timesIdx (s.times s.timesIdx ++ [t]) with updated := s.updated ++ [t] }
  | .aggregate => some (aggregateStep cfg s)

def timerMachine (cfg : TimerConfig D) : Machine (TimerState D) (TimerAction D) :=
  ⟨{}, timerStep cfg⟩

/-! ## §3. The invariant. -/

/-- What the aggregation fiber knows at each place of the two buffers. -/
def AggregatePc.Ok (cfg : TimerConfig D) (timesIdx : Fin 2) (times : Fin 2 → List D) :
    AggregatePc D → Prop
  | .idle => True
  | .picked data => data = timesIdx
  | .switched data => data ≠ timesIdx
  | .binned data hist => data ≠ timesIdx ∧ hist = histogramOf cfg (times data)
  | .cleared hist samples => hist = histogramOf cfg samples

structure TimerInv (cfg : TimerConfig D) (s : TimerState D) : Prop where
  conserved : (s.updated : Multiset D) = s.inHistograms + s.aggregate.publishing + s.buffered
  made : ∀ p ∈ s.published, p.1 = histogramOf cfg p.2
  windows : s.minValues = lastSix (s.published.map Prod.fst)
  aggregating : s.aggregate.Ok cfg s.timesIdx s.times

theorem timer_inv_init (cfg : TimerConfig D) : TimerInv cfg (timerMachine cfg).init :=
  ⟨rfl, fun _ h => (List.not_mem_nil h).elim, rfl, trivial⟩

/-- A new sample goes to the active buffer, which is not the one that is
aggregated outside the lock. -/
theorem TimerInv.update {cfg : TimerConfig D} {s : TimerState D} (h : TimerInv cfg s) (t : D) :
    TimerInv cfg
      { s.setTimes s.timesIdx (s.times s.timesIdx ++ [t]) with updated := s.updated ++ [t] } := by
  -- the active buffer grows by the sample
  have hbuffered := buffered_setTimes s s.timesIdx (s.times s.timesIdx ++ [t])
  rw [← Multiset.coe_add, ← add_assoc, add_right_comm, add_right_cancel_iff] at hbuffered
  refine ⟨?_, h.made, h.windows, ?_⟩
  · show ((s.updated ++ [t] : List D) : Multiset D) = s.inHistograms + s.aggregate.publishing +
      (s.setTimes s.timesIdx (s.times s.timesIdx ++ [t])).buffered
    rw [← Multiset.coe_add, hbuffered, h.conserved, add_assoc _ s.buffered]
  · show s.aggregate.Ok cfg s.timesIdx (s.setTimes s.timesIdx _).times
    have hagg := h.aggregating
    cases hpc : s.aggregate with
    | binned data hist =>
        rw [hpc] at hagg
        exact ⟨hagg.1, by rw [setTimes_of_ne s hagg.1]; exact hagg.2⟩
    | _ =>
        rw [hpc] at hagg
        exact hagg

/-- Each internal step of the aggregation keeps the invariant. -/
theorem TimerInv.aggregate {cfg : TimerConfig D} {s : TimerState D} (h : TimerInv cfg s) :
    TimerInv cfg (aggregateStep cfg s) := by
  have hconserved := h.conserved
  have hagg := h.aggregating
  unfold aggregateStep
  cases hpc : s.aggregate with
  | idle =>
      rw [hpc] at hconserved
      dsimp only
      split
      · exact ⟨hconserved, h.made, h.windows, rfl⟩
      · exact ⟨hconserved, h.made, h.windows, trivial⟩
  | picked data =>
      rw [hpc] at hconserved hagg
      refine ⟨hconserved, h.made, h.windows, ?_⟩
      -- from now on updates go to the other buffer
      show data ≠ s.timesIdx + 1
      rw [show data = s.timesIdx from hagg]
      omega
  | switched data =>
      rw [hpc] at hconserved hagg
      dsimp only
      split
      · exact ⟨hconserved, h.made, h.windows, rfl⟩
      · -- the buffer is sorted in place
        have hbuffered := buffered_setTimes s data (sortTimes (s.times data))
        rw [sortTimes_coe, add_right_cancel_iff] at hbuffered
        refine ⟨?_, h.made, h.windows, hagg, by rw [setTimes_self]⟩
        exact hconserved.trans (congrArg _ hbuffered.symm)
  | binned data hist =>
      rw [hpc] at hconserved hagg
      have hbuffered := buffered_setTimes s data []
      rw [Multiset.coe_nil, add_zero] at hbuffered
      refine ⟨?_, h.made, h.windows, hagg.2⟩
      -- the samples go from the buffer to the histogram that is published next
      show (s.updated : Multiset D) = s.inHistograms + (s.times data : Multiset D) +
        (s.setTimes data []).buffered
      rw [hconserved, ← hbuffered]
      show s.inHistograms + 0 + _ = _
      abel
  | cleared hist samples =>
      rw [hpc] at hconserved hagg
      refine ⟨?_, ?_, ?_, trivial⟩
      · show (s.updated : Multiset D) =
          ((s.published ++ [(hist, samples)]).flatMap Prod.snd : List D) + 0 + s.buffered
        rw [List.flatMap_append, ← Multiset.coe_add, List.flatMap_singleton, add_zero]
        exact hconserved
      · intro p hp
        rcases List.mem_append.mp hp with hp | hp
        · exact h.made p hp
        · rw [List.mem_singleton.mp hp]
          exact hagg
      · show pushWindow s.minValues hist = lastSix ((s.published ++ [(hist, samples)]).map Prod.fst)
        rw [h.windows, pushWindow_lastSix, List.map_append, List.map_singleton]

theorem timer_inv_reach {cfg : TimerConfig D} {s : TimerState D} (h : (timerMachine cfg).Reach s) :
    TimerInv cfg s := by
  refine h.invariant (timer_inv_init cfg) ?_
  intro s a t hs _ hstep
  cases a with
  | update x => exact Option.some.inj hstep ▸ hs.update x
  | aggregate => exact Option.some.inj hstep ▸ hs.aggregate

/-! ## §4. No sample is lost or counted twice. -/

/-- **NO SAMPLE IS LOST OR COUNTED TWICE**, in any interleaving.  The samples
passed to `update` are those of the published histograms, of the buffers, and
of the one histogram that is made and not yet published; a published histogram
accounts for its samples, and the windows are the last six published ones. -/
theorem timer_conserves_samples (cfg : TimerConfig D) (s : TimerState D)
    (h : (timerMachine cfg).Reach s) :
    (s.updated : Multiset D) =
        s.published.flatMap Prod.snd + s.aggregate.publishing + (s.times 0 + s.times 1) ∧
      (∀ p ∈ s.published,
        p.1 = histogramOf cfg p.2 ∧ p.1.count = p.1.inBins ∧ p.1.count = p.2.length) ∧
      s.minValues = lastSix (s.published.map Prod.fst) := by
  have hinv := timer_inv_reach h
  refine ⟨hinv.conserved, ?_, hinv.windows⟩
  intro p hp
  have hmade := hinv.made p hp
  have haccounts := histogramOf_accounts cfg p.2
  rw [← hmade] at haccounts
  exact ⟨hmade, haccounts.1, haccounts.2⟩

end Steps

/-- The default configuration, over integral nanoseconds. -/
def defaultTimer : Machine (TimerState Int) (TimerAction Int) := timerMachine ⟨10, 1000000⟩

/-- A sample, and the steps of one aggregation up to the clear. -/
def clearedRun : List (TimerAction Int) := .update 5 :: List.replicate 13 .aggregate

/-- The sample after its publication. -/
theorem timer_conserves_samples_published :
    ∃ s, defaultTimer.Reach s ∧ s.updated = [5] ∧ s.published.length = 1 ∧
      (s.updated : Multiset Int) =
        s.published.flatMap Prod.snd + s.aggregate.publishing + (s.times 0 + s.times 1) := by
  obtain ⟨s, hs, hupdated, hpublished⟩ := defaultTimer.exists_reach_of_run
    (clearedRun ++ [.aggregate]) (fun s => s.updated = [5] ∧ s.published.length = 1)
    (by decide +kernel)
  exact ⟨s, hs, hupdated, hpublished, (timer_conserves_samples ⟨10, 1000000⟩ s hs).1⟩

/-- **After the clear and before the publication the sample is neither in a
buffer nor in a published histogram**: the equation needs the histogram that
the aggregation fiber still holds. -/
theorem cleared_not_published :
    ¬ ∀ s, defaultTimer.Reach s →
      (s.updated : Multiset Int) = s.published.flatMap Prod.snd + (s.times 0 + s.times 1) := by
  intro h
  obtain ⟨s, hs, hupdated, hpublished, h0, h1⟩ := defaultTimer.exists_reach_of_run clearedRun
    (fun s => s.updated = [5] ∧ s.published.length = 0 ∧ s.times 0 = [] ∧ s.times 1 = [])
    (by decide +kernel)
  have hall := h s hs
  rw [hupdated, List.length_eq_zero_iff.mp hpublished, h0, h1] at hall
  exact absurd hall (by decide)

end Petrel
