/-
  Petrel.Metrics.Histogram — what the histogram of a window says.

  `aggregate` bins a sorted buffer in one pass: it keeps a bin, its upper bound
  and a running count, and moves on where a value is not below the upper bound
  plus one.  For whole nanoseconds that is the bin a reference definition puts
  the value in; a fraction just above a bound stays in the lower bin as long as
  the loop is there.  Where the loop has been depends on the values below only,
  so the place of every value can be told without the loop.

  Main results:
    * `binCount_placeOf` — the bins of a histogram, for any values.
    * `binCount_histogramOf` — the bins of a histogram count the values that
      the reference puts there.
    * `aggregate_bins_exact` — the histogram of whole nanoseconds.
-/

import Petrel.Metrics.Timer

namespace Petrel

open Framework

section Exact

variable {D : Type} [Field D] [LinearOrder D]

/-! ## §1. The bin of a value. -/

/-- The upper bound of a bin. -/
def upperBound (cfg : TimerConfig D) (i : Nat) : D := ((i : D) + 1) * cfg.binSize

/-- The bin where the inner loop stops if it begins at the first one. -/
def binOf (cfg : TimerConfig D) (d : D) : Nat := (nextBin cfg.binSize d cfg.numOfBins 0 cfg.binSize).1

/-- The first bin that holds the value: it is above the bounds of the bins
before, and not above the bound of this one unless it is the last. -/
structure IsBin (cfg : TimerConfig D) (d : D) (k : Nat) : Prop where
  le : k ≤ cfg.numOfBins
  above : ∀ j, j < k → upperBound cfg j < d
  within : k < cfg.numOfBins → d ≤ upperBound cfg k

omit [LinearOrder D] in
theorem upperBound_succ (cfg : TimerConfig D) (i : Nat) :
    upperBound cfg i + cfg.binSize = upperBound cfg (i + 1) := by
  unfold upperBound
  push_cast
  ring

omit [LinearOrder D] in
theorem upperBound_zero (cfg : TimerConfig D) : upperBound cfg 0 = cfg.binSize := by
  unfold upperBound
  rw [Nat.cast_zero, zero_add, one_mul]

/-- A value has one bin. -/
theorem IsBin.unique {cfg : TimerConfig D} {d : D} {k k' : Nat} (h : IsBin cfg d k)
    (h' : IsBin cfg d k') : k = k' := by
  rcases Nat.lt_trichotomy k k' with hlt | heq | hlt
  · have hwithin := h.within (Nat.lt_of_lt_of_le hlt h'.le)
    exact absurd (h'.above k hlt) (not_lt.mpr hwithin)
  · exact heq
  · have hwithin := h'.within (Nat.lt_of_lt_of_le hlt h.le)
    exact absurd (h.above k' hlt) (not_lt.mpr hwithin)

/-- **The inner loop finds the bin**, from any bin whose predecessors are too
low. -/
theorem nextBin_isBin (cfg : TimerConfig D) (d : D) (left i : Nat) (hleft : i + left = cfg.numOfBins)
    (hbelow : ∀ j, j < i → upperBound cfg j < d) :
    ∃ k, nextBin cfg.binSize d left i (upperBound cfg i) = (k, upperBound cfg k) ∧ IsBin cfg d k := by
  induction left generalizing i with
  | zero =>
      refine ⟨i, rfl, Nat.le_of_eq hleft, hbelow, ?_⟩
      intro hlt
      exact absurd hleft (Nat.ne_of_lt hlt)
  | succ left ih =>
      unfold nextBin
      by_cases hd : upperBound cfg i < d
      · rw [if_pos hd, upperBound_succ]
        refine ih (i + 1) (by omega) ?_
        intro j hj
        rcases Nat.lt_succ_iff_lt_or_eq.mp hj with hlt | rfl
        · exact hbelow j hlt
        · exact hd
      · rw [if_neg hd]
        exact ⟨i, rfl, by omega, hbelow, fun _ => not_lt.mp hd⟩

theorem isBin_binOf (cfg : TimerConfig D) (d : D) : IsBin cfg d (binOf cfg d) := by
  obtain ⟨k, hk, hbin⟩ := nextBin_isBin cfg d cfg.numOfBins 0 (Nat.zero_add _)
    (fun j hj => absurd hj (Nat.not_lt_zero j))
  rw [upperBound_zero] at hk
  unfold binOf
  rw [hk]
  exact hbin

theorem IsBin.eq_binOf {cfg : TimerConfig D} {d : D} {k : Nat} (h : IsBin cfg d k) :
    binOf cfg d = k :=
  (isBin_binOf cfg d).unique h

/-- What has a lower bin is lower. -/
theorem lt_of_binOf_lt {cfg : TimerConfig D} {d e : D} (h : binOf cfg d < binOf cfg e) : d < e := by
  have hwithin := (isBin_binOf cfg d).within (Nat.lt_of_lt_of_le h (isBin_binOf cfg e).le)
  exact lt_of_le_of_lt hwithin ((isBin_binOf cfg e).above _ h)

theorem binOf_mono {cfg : TimerConfig D} {d e : D} (h : d ≤ e) : binOf cfg d ≤ binOf cfg e :=
  Nat.le_of_not_lt fun hlt => absurd (lt_of_binOf_lt hlt) (not_lt.mpr h)

/-! ## §2. The bin that the loop counts a value in. -/

/-- The last bin that the loop enters, up to the one given.  It enters a bin with
a value of this bin that is above the bound of the last one by one at least. -/
def lastEntered (cfg : TimerConfig D) (samples : List D) : Nat → Nat
  | 0 => 0
  | b + 1 =>
      let i := lastEntered cfg samples b
      if ∃ d ∈ samples, binOf cfg d = b + 1 ∧ upperBound cfg i + 1 ≤ d then b + 1 else i

/-- The loop over the samples enters the bin. -/
def Entered (cfg : TimerConfig D) (samples : List D) (b : Nat) : Prop :=
  lastEntered cfg samples b = b

/-- The bin that a value is counted in: it stays in the bin before its own if it
is less than one above the bound there. -/
def placeOf (cfg : TimerConfig D) (samples : List D) (d : D) : Nat :=
  let i := lastEntered cfg samples (binOf cfg d - 1)
  if d < upperBound cfg i + 1 then i else binOf cfg d

theorem lastEntered_succ (cfg : TimerConfig D) (samples : List D) (b : Nat) :
    lastEntered cfg samples (b + 1) =
      if ∃ d ∈ samples, binOf cfg d = b + 1 ∧ upperBound cfg (lastEntered cfg samples b) + 1 ≤ d
      then b + 1 else lastEntered cfg samples b := rfl

theorem lastEntered_nil (cfg : TimerConfig D) (b : Nat) : lastEntered cfg [] b = 0 := by
  induction b with
  | zero => rfl
  | succ b ih =>
      have hnone : ¬ ∃ d ∈ ([] : List D), binOf cfg d = b + 1 ∧
          upperBound cfg (lastEntered cfg [] b) + 1 ≤ d := fun ⟨_, hd, _⟩ => List.not_mem_nil hd
      rw [lastEntered_succ, if_neg hnone, ih]

theorem lastEntered_le (cfg : TimerConfig D) (samples : List D) (b : Nat) :
    lastEntered cfg samples b ≤ b := by
  induction b with
  | zero => exact Nat.le_refl 0
  | succ b ih =>
      rw [lastEntered_succ]
      split
      · exact Nat.le_refl (b + 1)
      · exact Nat.le_succ_of_le ih

theorem entered_lastEntered (cfg : TimerConfig D) (samples : List D) (b : Nat) :
    Entered cfg samples (lastEntered cfg samples b) := by
  induction b with
  | zero => rfl
  | succ b ih =>
      by_cases h : ∃ d ∈ samples, binOf cfg d = b + 1 ∧
          upperBound cfg (lastEntered cfg samples b) + 1 ≤ d
      · have hb : lastEntered cfg samples (b + 1) = b + 1 := by rw [lastEntered_succ, if_pos h]
        rw [hb]
        exact hb
      · rw [lastEntered_succ, if_neg h]
        exact ih

theorem lastEntered_mono (cfg : TimerConfig D) (samples : List D) :
    Monotone (lastEntered cfg samples) := by
  refine monotone_nat_of_le_succ fun b => ?_
  rw [lastEntered_succ]
  split
  · exact Nat.le_succ_of_le (lastEntered_le cfg samples b)
  · exact Nat.le_refl _

theorem Entered.le_lastEntered {cfg : TimerConfig D} {samples : List D} {i b : Nat}
    (h : Entered cfg samples i) (hb : i ≤ b) : i ≤ lastEntered cfg samples b := by
  calc i = lastEntered cfg samples i := h.symm
    _ ≤ lastEntered cfg samples b := lastEntered_mono cfg samples hb

/-- Only the values up to a bin decide whether it is entered. -/
theorem lastEntered_congr {cfg : TimerConfig D} {samples samples' : List D} {b : Nat}
    (h : ∀ d, binOf cfg d ≤ b → (d ∈ samples ↔ d ∈ samples')) :
    lastEntered cfg samples b = lastEntered cfg samples' b := by
  induction b with
  | zero => rfl
  | succ b ih =>
      have hlast := ih fun d hd => h d (Nat.le_succ_of_le hd)
      have hiff : (∃ d ∈ samples, binOf cfg d = b + 1 ∧
          upperBound cfg (lastEntered cfg samples' b) + 1 ≤ d) ↔
          ∃ d ∈ samples', binOf cfg d = b + 1 ∧
            upperBound cfg (lastEntered cfg samples' b) + 1 ≤ d := by
        refine exists_congr fun d => ?_
        by_cases hd : binOf cfg d = b + 1
        · rw [h d (Nat.le_of_eq hd)]
        · exact iff_of_false (fun hin => hd hin.2.1) (fun hin => hd hin.2.1)
      rw [lastEntered_succ, lastEntered_succ, hlast, if_congr hiff rfl rfl]

/-- **An entered bin has a value that is clear of every bin entered before.** -/
theorem Entered.above {cfg : TimerConfig D} {samples : List D} {i j : Nat}
    (hi : Entered cfg samples i) (hj : Entered cfg samples j) (hlt : j < i) :
    ∃ e ∈ samples, binOf cfg e = i ∧ upperBound cfg j + 1 ≤ e := by
  induction i using Nat.strong_induction_on with
  | _ i ih =>
      obtain ⟨b, rfl⟩ := Nat.exists_eq_add_one_of_ne_zero (Nat.ne_zero_of_lt hlt)
      have henter : ∃ d ∈ samples, binOf cfg d = b + 1 ∧
          upperBound cfg (lastEntered cfg samples b) + 1 ≤ d := by
        by_contra hnone
        have heq : lastEntered cfg samples (b + 1) = b + 1 := hi
        rw [lastEntered_succ, if_neg hnone] at heq
        exact absurd heq (Nat.ne_of_lt (Nat.lt_succ_of_le (lastEntered_le cfg samples b)))
      obtain ⟨e, he, hbin, hclear⟩ := henter
      refine ⟨e, he, hbin, ?_⟩
      have hle : lastEntered cfg samples b ≤ b := lastEntered_le cfg samples b
      rcases Nat.lt_or_eq_of_le (hj.le_lastEntered (Nat.le_of_lt_succ hlt)) with hbefore | heq
      · -- the bin entered last before `b + 1` is above bin `j`
        obtain ⟨e', _, hbin', hclear'⟩ := ih (lastEntered cfg samples b) (Nat.lt_succ_of_le hle)
          (entered_lastEntered cfg samples b) hbefore
        have hlt' : binOf cfg e' < binOf cfg e := by omega
        exact hclear'.trans (le_of_lt (lt_of_binOf_lt hlt'))
      · rw [heq]
        exact hclear

/-- A value stays in the bin that is entered before and that it is less than one
above of. -/
theorem placeOf_of_entered {cfg : TimerConfig D} {samples : List D} {d : D} {i : Nat}
    (h : Entered cfg samples i) (hi : i < binOf cfg d) (hd : d < upperBound cfg i + 1) :
    placeOf cfg samples d = i := by
  have hlast : lastEntered cfg samples (binOf cfg d - 1) = i := by
    have hle := lastEntered_le cfg samples (binOf cfg d - 1)
    by_contra hne
    have hlt : i < lastEntered cfg samples (binOf cfg d - 1) :=
      Nat.lt_of_le_of_ne (h.le_lastEntered (Nat.le_sub_one_of_lt hi)) (Ne.symm hne)
    -- the loop is past bin `i` with a value below `d`
    obtain ⟨e, _, hbin, hclear⟩ := (entered_lastEntered cfg samples _).above h hlt
    have hlower : binOf cfg e < binOf cfg d := by omega
    have hed : e < d := lt_of_binOf_lt hlower
    exact absurd (hed.trans hd) (not_lt.mpr hclear)
  unfold placeOf
  rw [hlast, if_pos hd]

theorem placeOf_cases (cfg : TimerConfig D) (samples : List D) (d : D) :
    placeOf cfg samples d = binOf cfg d ∨
      (placeOf cfg samples d < binOf cfg d ∧ d < upperBound cfg (placeOf cfg samples d) + 1 ∧
        Entered cfg samples (placeOf cfg samples d)) := by
  have hle := lastEntered_le cfg samples (binOf cfg d - 1)
  unfold placeOf
  by_cases hd : d < upperBound cfg (lastEntered cfg samples (binOf cfg d - 1)) + 1
  · simp only [if_pos hd]
    rcases Nat.eq_zero_or_pos (binOf cfg d) with hzero | hpos
    · left
      omega
    · exact .inr ⟨by omega, hd, entered_lastEntered cfg samples _⟩
  · exact .inl (if_neg hd)

theorem placeOf_eq_binOf {cfg : TimerConfig D} {samples : List D} {d : D}
    (h : ∀ i, Entered cfg samples i → i < binOf cfg d → upperBound cfg i + 1 ≤ d) :
    placeOf cfg samples d = binOf cfg d := by
  rcases placeOf_cases cfg samples d with heq | ⟨hlt, hd, hentered⟩
  · exact heq
  · exact absurd (h _ hentered hlt) (not_le.mpr hd)

/-- Where a value is counted, the loop has been. -/
theorem entered_placeOf (cfg : TimerConfig D) {samples : List D} {d : D} (hd : d ∈ samples) :
    Entered cfg samples (placeOf cfg samples d) := by
  by_cases hlow : d < upperBound cfg (lastEntered cfg samples (binOf cfg d - 1)) + 1
  · have hplace : placeOf cfg samples d = lastEntered cfg samples (binOf cfg d - 1) := if_pos hlow
    rw [hplace]
    exact entered_lastEntered cfg samples _
  · have hplace : placeOf cfg samples d = binOf cfg d := if_neg hlow
    rw [hplace]
    unfold Entered
    cases hbin : binOf cfg d with
    | zero => rfl
    | succ b =>
        rw [hbin, Nat.add_sub_cancel] at hlow
        rw [lastEntered_succ, if_pos ⟨d, hd, hbin, not_lt.mp hlow⟩]

theorem placeOf_congr {cfg : TimerConfig D} {samples samples' : List D}
    (h : ∀ d, d ∈ samples ↔ d ∈ samples') (d : D) :
    placeOf cfg samples d = placeOf cfg samples' d := by
  unfold placeOf
  rw [lastEntered_congr fun e _ => h e]

/-- Two lists of values have the same place for a value, if they agree on the
bins that it is less than one above of. -/
theorem placeOf_eq_iff {cfg : TimerConfig D} {samples samples' : List D} {d : D} :
    placeOf cfg samples d = placeOf cfg samples' d ↔
      ∀ i, i < binOf cfg d → d < upperBound cfg i + 1 →
        (Entered cfg samples i ↔ Entered cfg samples' i) := by
  constructor
  · intro heq i hi hd
    -- the place is below the bin, so the loop has been there
    have hlow : ∀ {s : List D}, placeOf cfg s d = i → Entered cfg s i := by
      intro s hplace
      rcases placeOf_cases cfg s d with hbin | ⟨_, _, hentered⟩
      · exact absurd (hplace ▸ hbin) (Nat.ne_of_lt hi)
      · exact hplace ▸ hentered
    exact ⟨fun h => hlow (heq ▸ placeOf_of_entered h hi hd),
      fun h => hlow (heq.trans (placeOf_of_entered h hi hd))⟩
  · intro h
    rcases placeOf_cases cfg samples d with hbin | ⟨hlt, hd, hentered⟩
    · rcases placeOf_cases cfg samples' d with hbin' | ⟨hlt', hd', hentered'⟩
      · rw [hbin, hbin']
      · exact placeOf_of_entered ((h _ hlt' hd').mpr hentered') hlt' hd'
    · exact (placeOf_of_entered ((h _ hlt hd).mp hentered) hlt hd).symm

/-- A value that is not below the others does not change their places. -/
theorem placeOf_append {cfg : TimerConfig D} (samples : List D) {d e : D}
    (h : binOf cfg e ≤ binOf cfg d) : placeOf cfg (samples ++ [d]) e = placeOf cfg samples e := by
  have hlast : lastEntered cfg (samples ++ [d]) (binOf cfg e - 1) =
      lastEntered cfg samples (binOf cfg e - 1) := by
    rcases Nat.eq_zero_or_pos (binOf cfg e) with hzero | hpos
    · rw [hzero]
      rfl
    · refine lastEntered_congr fun x hx => ?_
      have hne : x ≠ d := by
        rintro rfl
        omega
      rw [List.mem_append, List.mem_singleton, or_iff_left hne]
  unfold placeOf
  rw [hlast]

/-- The loop is where it has counted the last value. -/
theorem lastEntered_append {cfg : TimerConfig D} {samples : List D} {d : D}
    (hge : ∀ e ∈ samples, e ≤ d) :
    lastEntered cfg (samples ++ [d]) cfg.numOfBins = placeOf cfg samples d := by
  have hmem : d ∈ samples ++ [d] := List.mem_append_right _ (List.mem_singleton.mpr rfl)
  have hentered := entered_placeOf cfg hmem
  have hcases := placeOf_cases cfg (samples ++ [d]) d
  rw [placeOf_append samples (Nat.le_refl _)] at hentered hcases
  have hbin := (isBin_binOf cfg d).le
  have hplace : placeOf cfg samples d ≤ cfg.numOfBins := by
    rcases hcases with heq | ⟨hlt, _⟩
    · rw [heq]
      exact hbin
    · exact Nat.le_trans (Nat.le_of_lt hlt) hbin
  refine Nat.le_antisymm (Nat.le_of_not_lt fun hlt => ?_) (hentered.le_lastEntered hplace)
  -- a later bin would have been entered with a value that is not above `d`
  obtain ⟨e, he, hbine, hclear⟩ := (entered_lastEntered cfg _ _).above hentered hlt
  have hed : e ≤ d := by
    rcases List.mem_append.mp he with he | he
    · exact hge e he
    · exact le_of_eq (List.mem_singleton.mp he)
  rcases hcases with heq | ⟨_, hd, _⟩
  · have hmono : binOf cfg e ≤ binOf cfg d := binOf_mono hed
    omega
  · exact absurd (hclear.trans hed) (not_le.mpr hd)

end Exact

/-! ## §3. The bins of a histogram. -/

section Counts

variable {D : Type}

/-- The count of a bin. -/
def Histogram.binCount (h : Histogram D) (i : Nat) : Nat := ((h.dist[i]?).map Prod.snd).getD 0

theorem binCount_updateBin (h : Histogram D) {i : Nat} (hi : i < h.dist.length) (count j : Nat) :
    (h.updateBin i count).binCount j = h.binCount j + if j = i then count else 0 := by
  unfold Histogram.binCount Histogram.updateBin
  rw [List.getElem?_modify]
  by_cases hj : j = i
  · subst hj
    simp [hi]
  · simp [hj, Ne.symm hj]

theorem lowers_updateBin (h : Histogram D) (i count : Nat) :
    (h.updateBin i count).dist.map Prod.fst = h.dist.map Prod.fst := by
  show (h.dist.modify i _).map Prod.fst = _
  induction h.dist generalizing i with
  | nil => simp
  | cons p dist ih =>
      cases i with
      | zero => simp
      | succ i => simp [ih]

theorem binCount_binsFrom [Add D] (binSize lower : D) (n j : Nat) :
    (((binsFrom binSize lower n)[j]?).map Prod.snd).getD 0 = 0 := by
  induction n generalizing lower j with
  | zero => rfl
  | succ n ih =>
      cases j with
      | zero => rfl
      | succ j => exact ih (lower + binSize) j

/-- The bounds and the counts make the bins. -/
theorem dist_ext {h h' : Histogram D} (hlowers : h.dist.map Prod.fst = h'.dist.map Prod.fst)
    (hcounts : ∀ j, j < h.dist.length → h.binCount j = h'.binCount j) : h.dist = h'.dist := by
  have hlength : h.dist.length = h'.dist.length := by
    rw [← List.length_map (f := Prod.fst), hlowers, List.length_map]
  refine List.ext_getElem hlength fun j hj hj' => Prod.ext ?_ ?_
  · have := congrArg (fun l => l[j]?) hlowers
    simpa [hj, hj'] using this
  · have := hcounts j hj
    unfold Histogram.binCount at this
    rwa [List.getElem?_eq_getElem hj, List.getElem?_eq_getElem hj'] at this

end Counts

/-! ## §4. The distribution loop. -/

section Loop

variable {D : Type} [Field D] [LinearOrder D]

/-- A value above the bound of a bin is above it by one at least.  That is what
the test of the loop takes for granted. -/
def OffBounds (cfg : TimerConfig D) (d : D) : Prop :=
  ∀ i, i < cfg.numOfBins → d < upperBound cfg i + 1 → d ≤ upperBound cfg i

/-- No bin before its own is within reach of such a value. -/
theorem OffBounds.not_lt {cfg : TimerConfig D} {d : D} (h : OffBounds cfg d) {i : Nat}
    (hi : i < binOf cfg d) : ¬ d < upperBound cfg i + 1 := by
  intro hd
  have hbin := isBin_binOf cfg d
  exact absurd (h i (Nat.lt_of_lt_of_le hi hbin.le) hd) (not_le.mpr (hbin.above i hi))

theorem OffBounds.placeOf {cfg : TimerConfig D} {d : D} (h : OffBounds cfg d) (samples : List D) :
    placeOf cfg samples d = binOf cfg d :=
  placeOf_eq_binOf fun _ _ hi => le_of_not_gt (h.not_lt hi)

/-- The loop has binned the values `seen`, the running count included. -/
structure BinLoop.Bins (cfg : TimerConfig D) (b : BinLoop D) (seen : List D) : Prop where
  upper : b.upper = upperBound cfg b.i
  bin : b.i = lastEntered cfg seen cfg.numOfBins
  length : b.hist.dist.length = cfg.numOfBins + 1
  counts : ∀ j, b.hist.binCount j + (if j = b.i then b.count else 0) =
    seen.countP (fun d => placeOf cfg seen d = j)

theorem BinLoop.Bins.le {cfg : TimerConfig D} {b : BinLoop D} {seen : List D}
    (h : b.Bins cfg seen) : b.i ≤ cfg.numOfBins := by
  rw [h.bin]
  exact lastEntered_le cfg seen cfg.numOfBins

/-- The loop has passed the bounds of the bins before its own. -/
theorem BinLoop.Bins.below {cfg : TimerConfig D} {b : BinLoop D} {seen : List D}
    (h : b.Bins cfg seen) {d : D} (hge : ∀ e ∈ seen, e ≤ d) :
    b.i ≤ binOf cfg d ∧ ∀ j, Entered cfg seen j → j < b.i → upperBound cfg j + 1 ≤ d := by
  have hentered : Entered cfg seen b.i := h.bin ▸ entered_lastEntered cfg seen cfg.numOfBins
  have habove : ∀ j, Entered cfg seen j → j < b.i →
      b.i ≤ binOf cfg d ∧ upperBound cfg j + 1 ≤ d := by
    intro j hj hlt
    obtain ⟨e, he, hbin, hclear⟩ := hentered.above hj hlt
    exact ⟨hbin ▸ binOf_mono (hge e he), hclear.trans (hge e he)⟩
  refine ⟨?_, fun j hj hlt => (habove j hj hlt).2⟩
  rcases Nat.eq_zero_or_pos b.i with hzero | hpos
  · rw [hzero]
    exact Nat.zero_le _
  · exact (habove 0 rfl hpos).1

/-- The values seen have the places of all values, and the next one has its own. -/
theorem countP_placeOf_append {cfg : TimerConfig D} {seen : List D} {d : D}
    (hge : ∀ e ∈ seen, e ≤ d) (j : Nat) :
    (seen ++ [d]).countP (fun e => placeOf cfg (seen ++ [d]) e = j) =
      seen.countP (fun e => placeOf cfg seen e = j) + if j = placeOf cfg seen d then 1 else 0 := by
  have hseen : seen.countP (fun e => placeOf cfg (seen ++ [d]) e = j) =
      seen.countP (fun e => placeOf cfg seen e = j) := by
    refine List.countP_congr fun e he => ?_
    rw [placeOf_append seen (binOf_mono (hge e he))]
  rw [List.countP_append, hseen, List.countP_singleton, placeOf_append seen (Nat.le_refl _)]
  by_cases hj : placeOf cfg seen d = j
  · simp [hj]
  · simp [hj, Ne.symm hj]

/-- **One value more**, which is not below the values before. -/
theorem BinLoop.Bins.step {cfg : TimerConfig D} {b : BinLoop D} {seen : List D}
    (h : b.Bins cfg seen) {d : D} (hge : ∀ e ∈ seen, e ≤ d) :
    (binStep cfg b d).Bins cfg (seen ++ [d]) := by
  have hcounts := h.counts
  have hle := h.le
  have hlt : b.i < b.hist.dist.length := by
    rw [h.length]
    omega
  obtain ⟨hbin, hclear⟩ := h.below hge
  have hentered : Entered cfg seen b.i := h.bin ▸ entered_lastEntered cfg seen cfg.numOfBins
  unfold binStep
  by_cases hfits : d < b.upper + 1 ∨ b.i = cfg.numOfBins
  · -- the value stays in the bin of the loop
    have hplace : placeOf cfg seen d = b.i := by
      rcases Nat.lt_or_eq_of_le hbin with hbefore | heq
      · rcases hfits with hd | hlast
        · exact placeOf_of_entered hentered hbefore (h.upper ▸ hd)
        · have := (isBin_binOf cfg d).le
          omega
      · rw [heq]
        exact placeOf_eq_binOf fun i hi hlt => hclear i hi (heq ▸ hlt)
    rw [if_pos hfits]
    refine ⟨h.upper, ?_, h.length, ?_⟩
    · rw [lastEntered_append hge, hplace]
    · intro j
      rw [countP_placeOf_append hge, ← hcounts j, hplace]
      show b.hist.binCount j + (if j = b.i then b.count + 1 else 0) = _
      by_cases hj : j = b.i
      · rw [if_pos hj, if_pos hj, if_pos hj, Nat.add_assoc]
      · rw [if_neg hj, if_neg hj, if_neg hj]
  · -- the value is clear of all bins entered, and goes to its own
    rw [if_neg hfits]
    push Not at hfits
    obtain ⟨hfar, hnotLast⟩ := hfits
    rw [h.upper] at hfar
    have hplace : placeOf cfg seen d = binOf cfg d := by
      refine placeOf_eq_binOf fun i hi hlt => ?_
      have hbound := (isBin_binOf cfg d).le
      have hlast : i ≤ b.i := by
        rw [h.bin]
        exact hi.le_lastEntered (by omega)
      rcases Nat.lt_or_eq_of_le hlast with hbefore | rfl
      · exact hclear i hi hbefore
      · exact hfar
    obtain ⟨k, hk, hisBin⟩ := nextBin_isBin cfg d (cfg.numOfBins - b.i) b.i
      (Nat.add_sub_cancel' hle) (fun j hj => (isBin_binOf cfg d).above j (Nat.lt_of_lt_of_le hj hbin))
    rw [← h.upper] at hk
    rw [hisBin.eq_binOf] at hplace
    simp only [hk]
    refine ⟨rfl, ?_, ?_, ?_⟩
    · rw [lastEntered_append hge, hplace]
    · show (b.hist.dist.modify _ _).length = _
      rw [List.length_modify]
      exact h.length
    · intro j
      rw [countP_placeOf_append hge, ← hcounts j, hplace]
      -- the running count goes into its bin, and a new one begins
      show (b.hist.updateBin b.i b.count).binCount j + (if j = k then 1 else 0) = _
      rw [binCount_updateBin b.hist hlt]

/-- **The whole loop**, over sorted values. -/
theorem BinLoop.Bins.foldl {cfg : TimerConfig D} {b : BinLoop D} {seen : List D}
    (h : b.Bins cfg seen) (data : List D) (hsorted : (seen ++ data).Pairwise (· ≤ ·)) :
    (data.foldl (binStep cfg) b).Bins cfg (seen ++ data) := by
  induction data generalizing b seen with
  | nil =>
      rw [List.append_nil]
      exact h
  | cons d data ih =>
      have hge : ∀ e ∈ seen, e ≤ d := fun e he =>
        (List.pairwise_append.mp hsorted).2.2 e he d List.mem_cons_self
      have hsplit : seen ++ d :: data = seen ++ [d] ++ data := by rw [List.append_assoc]; rfl
      rw [hsplit] at hsorted ⊢
      exact ih (h.step hge) hsorted

/-- The loop changes nothing but the bins, and not their bounds. -/
theorem foldl_binStep (cfg : TimerConfig D) (data : List D) (b : BinLoop D) :
    ∃ dist, (data.foldl (binStep cfg) b).hist = { b.hist with dist := dist } ∧
      dist.map Prod.fst = b.hist.dist.map Prod.fst := by
  induction data generalizing b with
  | nil => exact ⟨b.hist.dist, rfl, rfl⟩
  | cons d data ih =>
      obtain ⟨dist, hhist, hlowers⟩ := ih (binStep cfg b d)
      rw [List.foldl_cons, hhist]
      unfold binStep at hlowers ⊢
      by_cases hfits : d < b.upper + 1 ∨ b.i = cfg.numOfBins
      · rw [if_pos hfits] at hlowers ⊢
        exact ⟨dist, rfl, hlowers⟩
      · rw [if_neg hfits] at hlowers ⊢
        refine ⟨dist, rfl, hlowers.trans ?_⟩
        exact lowers_updateBin b.hist b.i b.count

/-- A histogram of a sorted buffer beside its bins. -/
theorem histogramOf_cons (cfg : TimerConfig D) (d : D) (ds : List D) :
    ∃ dist, histogramOf cfg (d :: ds) = { histogramStart cfg d ds with dist := dist } ∧
      dist.map Prod.fst = (binsFrom cfg.binSize 0 (cfg.numOfBins + 1)).map Prod.fst := by
  let b : BinLoop D := (d :: ds).foldl (binStep cfg) ⟨histogramStart cfg d ds, 0, 0, cfg.binSize⟩
  obtain ⟨dist, hhist, hlowers⟩ :=
    foldl_binStep cfg (d :: ds) ⟨histogramStart cfg d ds, 0, 0, cfg.binSize⟩
  have hflush : histogramOf cfg (d :: ds) = { histogramStart cfg d ds with dist := dist }.updateBin b.i b.count := by
    rw [← show b.hist = { histogramStart cfg d ds with dist := dist } from hhist]
    rfl
  rw [hflush]
  exact ⟨_, rfl, (lowers_updateBin _ _ _).trans hlowers⟩

/-- **The bins of a histogram** count the values that the loop puts there. -/
theorem binCount_placeOf (cfg : TimerConfig D) (data : List D) (hsorted : data.Pairwise (· ≤ ·))
    (j : Nat) : (histogramOf cfg data).binCount j = data.countP (fun d => placeOf cfg data d = j) := by
  cases data with
  | nil => exact binCount_binsFrom cfg.binSize 0 (cfg.numOfBins + 1) j
  | cons d ds =>
      -- before the loop all bins are empty
      have hstart : BinLoop.Bins cfg ⟨histogramStart cfg d ds, 0, 0, cfg.binSize⟩ [] := by
        refine ⟨(upperBound_zero cfg).symm, (lastEntered_nil cfg _).symm, length_binsFrom _ _ _, ?_⟩
        intro j
        have hzero : (histogramStart cfg d ds).binCount j = 0 :=
          binCount_binsFrom cfg.binSize 0 (cfg.numOfBins + 1) j
        show (histogramStart cfg d ds).binCount j + (if j = 0 then 0 else 0) = 0
        rw [hzero, ite_self]
      have hloop := hstart.foldl (d :: ds) hsorted
      have hle := hloop.le
      unfold histogramOf
      rw [binCount_updateBin _ (by rw [hloop.length]; omega)]
      exact hloop.counts j

/-- Off the bounds these are the values whose bin it is. -/
theorem binCount_histogramOf (cfg : TimerConfig D) (data : List D) (hsorted : data.Pairwise (· ≤ ·))
    (hoff : ∀ d ∈ data, OffBounds cfg d) (j : Nat) :
    (histogramOf cfg data).binCount j = data.countP (fun d => binOf cfg d = j) := by
  rw [binCount_placeOf cfg data hsorted]
  refine List.countP_congr fun d hd => ?_
  rw [(hoff d hd).placeOf data]

end Loop

/-! ## §5. The histogram of a list of values. -/

section Reference

variable {D : Type} [Field D] [LinearOrder D]

/-- The fields of a histogram beside its bins. -/
structure Histogram.Summarizes (h : Histogram D) (samples : List D) : Prop where
  count : h.count = samples.length
  sum : h.sum = samples.sum
  avg : h.avg = samples.sum / (samples.length : D)
  min_nil : samples = [] → h.min = 0
  max_nil : samples = [] → h.max = 0
  min : samples ≠ [] → IsLeast {d | d ∈ samples} h.min
  max : samples ≠ [] → IsGreatest {d | d ∈ samples} h.max

/-- A histogram says of a list of values what it is meant to say. -/
structure Histogram.IsOf (cfg : TimerConfig D) (h : Histogram D) (samples : List D) : Prop
    extends h.Summarizes samples where
  lowers : h.dist.map Prod.fst = (binsFrom cfg.binSize 0 (cfg.numOfBins + 1)).map Prod.fst
  counts : ∀ j, h.binCount j = samples.countP (fun d => binOf cfg d = j)

/-- The two are the same where they cannot differ. -/
theorem Histogram.Summarizes.max_unique {h h' : Histogram D} {samples : List D}
    (hof : h.Summarizes samples) (hof' : h'.Summarizes samples) : h.max = h'.max := by
  by_cases hnil : samples = []
  · rw [hof.max_nil hnil, hof'.max_nil hnil]
  · exact (hof.max hnil).unique (hof'.max hnil)

theorem Histogram.Summarizes.min_unique {h h' : Histogram D} {samples : List D}
    (hof : h.Summarizes samples) (hof' : h'.Summarizes samples) : h.min = h'.min := by
  by_cases hnil : samples = []
  · rw [hof.min_nil hnil, hof'.min_nil hnil]
  · exact (hof.min hnil).unique (hof'.min hnil)

/-- Two histograms of one list of values differ in their bins at most. -/
theorem Histogram.Summarizes.eq_of_counts {h h' : Histogram D} {samples : List D}
    (hof : h.Summarizes samples) (hof' : h'.Summarizes samples)
    (hlowers : h.dist.map Prod.fst = h'.dist.map Prod.fst)
    (hcounts : ∀ j, h.binCount j = h'.binCount j) : h = h' := by
  have hmin := hof.min_unique hof'
  have hmax := hof.max_unique hof'
  have hdist : h.dist = h'.dist := dist_ext hlowers fun j _ => hcounts j
  obtain ⟨min, max, avg, sum, count, dist⟩ := h
  obtain ⟨min', max', avg', sum', count', dist'⟩ := h'
  exact Histogram.mk.injEq .. ▸ ⟨hmin, hmax, hof.avg.trans hof'.avg.symm, hof.sum.trans hof'.sum.symm,
    hof.count.trans hof'.count.symm, hdist⟩

/-- The order of the values does not matter. -/
theorem Histogram.Summarizes.perm {h : Histogram D} {samples samples' : List D}
    (hof : h.Summarizes samples) (hperm : samples.Perm samples') : h.Summarizes samples' := by
  have hnil : samples' = [] → samples = [] := fun heq => (heq ▸ hperm).eq_nil
  have hmem : {d | d ∈ samples'} = {d | d ∈ samples} := Set.ext fun d => hperm.symm.mem_iff
  exact
    { count := hof.count.trans hperm.length_eq
      sum := hof.sum.trans hperm.sum_eq
      avg := by rw [hof.avg, hperm.sum_eq, hperm.length_eq]
      min_nil := fun heq => hof.min_nil (hnil heq)
      max_nil := fun heq => hof.max_nil (hnil heq)
      min := fun hne => hmem ▸ hof.min (fun heq => hne (heq ▸ hperm).symm.eq_nil)
      max := fun hne => hmem ▸ hof.max (fun heq => hne (heq ▸ hperm).symm.eq_nil) }

theorem Histogram.IsOf.perm {cfg : TimerConfig D} {h : Histogram D} {samples samples' : List D}
    (hof : h.IsOf cfg samples) (hperm : samples.Perm samples') : h.IsOf cfg samples' :=
  { hof.toSummarizes.perm hperm with
    lowers := hof.lowers
    counts := fun j => (hof.counts j).trans (hperm.countP_eq _) }

/-- The histogram without values. -/
theorem isOf_new (cfg : TimerConfig D) : (Histogram.new cfg).IsOf cfg [] where
  count := rfl
  sum := rfl
  avg := (zero_div _).symm
  min_nil := fun _ => rfl
  max_nil := fun _ => rfl
  min := fun hne => absurd rfl hne
  max := fun hne => absurd rfl hne
  lowers := rfl
  counts := fun j => binCount_binsFrom cfg.binSize 0 (cfg.numOfBins + 1) j

omit [Field D] in
/-- The last value of a sorted buffer is the greatest. -/
theorem isGreatest_getLast {d : D} {ds : List D} (hsorted : (d :: ds).Pairwise (· ≤ ·)) :
    IsGreatest {e | e ∈ d :: ds} ((d :: ds).getLast (List.cons_ne_nil d ds)) := by
  refine ⟨List.getLast_mem _, ?_⟩
  intro e he
  have hsplit := List.dropLast_append_getLast (List.cons_ne_nil d ds)
  rw [← hsplit, List.pairwise_append] at hsorted
  change e ∈ d :: ds at he
  rw [← hsplit, List.mem_append, List.mem_singleton] at he
  rcases he with he | rfl
  · exact hsorted.2.2 e he _ (List.mem_singleton.mpr rfl)
  · exact le_rfl

/-- The histogram of a sorted buffer beside its bins. -/
theorem histogramOf_summarizes (cfg : TimerConfig D) {data : List D}
    (hsorted : data.Pairwise (· ≤ ·)) : (histogramOf cfg data).Summarizes data := by
  cases data with
  | nil => exact (isOf_new cfg).toSummarizes
  | cons d ds =>
      obtain ⟨dist, hhist, _⟩ := histogramOf_cons cfg d ds
      have hsum : (d :: ds).foldl (· + ·) 0 = (d :: ds).sum := List.sum_eq_foldl.symm
      have hleast : IsLeast {e | e ∈ d :: ds} d := by
        refine ⟨List.mem_cons_self, ?_⟩
        intro e he
        rcases List.mem_cons.mp he with rfl | he
        · exact le_rfl
        · exact (List.pairwise_cons.mp hsorted).1 e he
      rw [hhist]
      exact
        { count := rfl
          sum := hsum
          avg := congrArg (· / _) hsum
          min_nil := fun hnil => absurd hnil (List.cons_ne_nil d ds)
          max_nil := fun hnil => absurd hnil (List.cons_ne_nil d ds)
          min := fun _ => hleast
          max := fun _ => isGreatest_getLast hsorted }

theorem lowers_histogramOf (cfg : TimerConfig D) (data : List D) :
    (histogramOf cfg data).dist.map Prod.fst =
      (binsFrom cfg.binSize 0 (cfg.numOfBins + 1)).map Prod.fst := by
  cases data with
  | nil => rfl
  | cons d ds =>
      obtain ⟨dist, hhist, hlowers⟩ := histogramOf_cons cfg d ds
      rw [hhist]
      exact hlowers

/-- **The histogram of a sorted buffer**, of values off the bounds. -/
theorem histogramOf_isOf (cfg : TimerConfig D) {data : List D} (hsorted : data.Pairwise (· ≤ ·))
    (hoff : ∀ d ∈ data, OffBounds cfg d) : (histogramOf cfg data).IsOf cfg data :=
  { histogramOf_summarizes cfg hsorted with
    lowers := lowers_histogramOf cfg data
    counts := binCount_histogramOf cfg data hsorted hoff }

omit [Field D] in
theorem sortTimes_sorted (data : List D) : (sortTimes data).Pairwise (· ≤ ·) := by
  have htotal : Std.Total (fun x y : D => ¬ y < x) := ⟨fun x y => by
    simp only [not_lt]
    exact le_total x y⟩
  have htrans : IsTrans D (fun x y : D => ¬ y < x) := ⟨fun x y z hxy hyz => by
    simp only [not_lt] at *
    exact hxy.trans hyz⟩
  exact (List.pairwise_insertionSort _ data).imp not_lt.mp

omit [Field D] in
theorem sortTimes_perm (data : List D) : (sortTimes data).Perm data := List.perm_insertionSort _ data

end Reference

/-! ## §6. Whole nanoseconds. -/

section Whole

variable {D : Type} [Field D] [LinearOrder D] [IsStrictOrderedRing D]

/-- The bounds go up. -/
theorem upperBound_lt {cfg : TimerConfig D} (hsize : 0 < cfg.binSize) {i j : Nat} (h : i < j) :
    upperBound cfg i < upperBound cfg j := by
  unfold upperBound
  have hcast : (i : D) < j := Nat.cast_lt.mpr h
  exact mul_lt_mul_of_pos_right (add_lt_add_left hcast 1) hsize

/-- The values of a bin, by the bound below and its own. -/
theorem binOf_eq_iff {cfg : TimerConfig D} (hsize : 0 < cfg.binSize) (d : D) {k : Nat}
    (hk : k ≤ cfg.numOfBins) :
    binOf cfg d = k ↔
      (0 < k → upperBound cfg (k - 1) < d) ∧ (k < cfg.numOfBins → d ≤ upperBound cfg k) := by
  constructor
  · rintro rfl
    have hbin := isBin_binOf cfg d
    exact ⟨fun hpos => hbin.above _ (Nat.sub_lt hpos Nat.one_pos), hbin.within⟩
  · rintro ⟨habove, hwithin⟩
    refine IsBin.eq_binOf ⟨hk, ?_, hwithin⟩
    intro j hj
    have hlast := habove (Nat.zero_lt_of_lt hj)
    rcases Nat.lt_or_eq_of_le (Nat.le_sub_one_of_lt hj) with hlt | rfl
    · exact (upperBound_lt hsize hlt).trans hlast
    · exact hlast

omit [LinearOrder D] [IsStrictOrderedRing D] in
theorem upperBound_intCast (N : Nat) (b : Int) (i : Nat) :
    upperBound (⟨N, (b : D)⟩ : TimerConfig D) i = (((i : Int) + 1) * b : Int) := by
  unfold upperBound
  push_cast
  ring

/-- A whole number is off the bounds, if the bins have a whole size. -/
theorem offBounds_intCast (N : Nat) (b d : Int) : OffBounds (⟨N, (b : D)⟩ : TimerConfig D) (d : D) := by
  intro i _ hd
  rw [upperBound_intCast] at hd ⊢
  have hlt : d < ((i : Int) + 1) * b + 1 := by exact_mod_cast hd
  exact_mod_cast Int.lt_add_one_iff.mp hlt

omit [LinearOrder D] [IsStrictOrderedRing D] in
/-- The samples of a bin, before and after the cast. -/
theorem countP_intCast (samples : List Int) (p : D → Bool) (q : Int → Bool)
    (h : ∀ d : Int, p (d : D) = q d) :
    (samples.map (fun d : Int => (d : D))).countP p = samples.countP q := by
  rw [List.countP_map]
  exact congrArg (fun r => samples.countP r) (funext h)

/-- The bin of a whole number, in terms of whole numbers. -/
theorem binOf_intCast_iff {N : Nat} {b : Int} (hb : 0 < b) {k : Nat} (hk : k ≤ N) (d : Int) :
    binOf (⟨N, (b : D)⟩ : TimerConfig D) (d : D) = k ↔
      (0 < k → (k : Int) * b < d) ∧ (k < N → d ≤ ((k : Int) + 1) * b) := by
  have hsize : (0 : D) < (⟨N, (b : D)⟩ : TimerConfig D).binSize := Int.cast_pos.mpr hb
  rw [binOf_eq_iff hsize (d : D) hk, upperBound_intCast, upperBound_intCast, Int.cast_lt, Int.cast_le]
  refine and_congr_left' ?_
  refine forall_congr' fun hpos => ?_
  rw [Nat.cast_sub (Nat.one_le_of_lt hpos), Nat.cast_one, Int.sub_add_cancel]

omit [IsStrictOrderedRing D] in
/-- A bin of a histogram of whole numbers counts those that it is the bin of. -/
theorem binCount_intCast {N : Nat} {b : Int} {samples : List Int} {hist : Histogram D}
    (hof : hist.IsOf (⟨N, (b : D)⟩ : TimerConfig D) (samples.map (fun d : Int => (d : D)))) {k : Nat}
    {p : Int → Prop} [DecidablePred p]
    (hp : ∀ d : Int, binOf (⟨N, (b : D)⟩ : TimerConfig D) (d : D) = k ↔ p d) :
    hist.binCount k = samples.countP (fun d => decide (p d)) := by
  rw [hof.counts]
  exact countP_intCast samples _ _ (fun d => decide_eq_decide.mpr (hp d))

/-- The least whole number. -/
theorem isLeast_intCast {samples : List Int} {x : D}
    (h : IsLeast {e | e ∈ samples.map (fun d : Int => (d : D))} x) :
    ∃ m ∈ samples, x = (m : D) ∧ ∀ d ∈ samples, m ≤ d := by
  obtain ⟨hmem, hle⟩ := h
  obtain ⟨m, hm, rfl⟩ := List.mem_map.mp hmem
  refine ⟨m, hm, rfl, ?_⟩
  intro d hd
  exact Int.cast_le.mp (hle (List.mem_map_of_mem hd))

/-- The greatest whole number. -/
theorem isGreatest_intCast {samples : List Int} {x : D}
    (h : IsGreatest {e | e ∈ samples.map (fun d : Int => (d : D))} x) :
    ∃ m ∈ samples, x = (m : D) ∧ ∀ d ∈ samples, d ≤ m := by
  obtain ⟨hmem, hge⟩ := h
  obtain ⟨m, hm, rfl⟩ := List.mem_map.mp hmem
  refine ⟨m, hm, rfl, ?_⟩
  intro d hd
  exact Int.cast_le.mp (hge (List.mem_map_of_mem hd))

omit [IsStrictOrderedRing D] in
/-- The aggregation of a buffer that is not empty. -/
theorem aggregateStep_switched (cfg : TimerConfig D) {s : TimerState D} {data : Fin 2}
    (hpc : s.aggregate = .switched data) (hne : s.times data ≠ []) :
    (aggregateStep cfg s).aggregate = .binned data (histogramOf cfg (sortTimes (s.times data))) := by
  have hnil : ¬ (s.times data).isEmpty = true := fun h => hne (List.isEmpty_iff.mp h)
  unfold aggregateStep
  rw [hpc]
  show (if (s.times data).isEmpty = true then _ else _ : TimerState D).aggregate = _
  rw [if_neg hnil]

/-- **THE BINNING LOOP IS EXACT** for whole nanoseconds: a bin counts the
samples between its bounds, the first one also what is below and the last one
what is above, and the other fields are those of the buffer.  The order of the
buffer does not matter. -/
theorem aggregate_bins_exact {N : Nat} (hN : 1 ≤ N) {b : Int} (hb : 0 < b) {samples : List Int}
    (hne : samples ≠ []) {s : TimerState D} {data : Fin 2} (hpc : s.aggregate = .switched data)
    (hdata : s.times data = samples.map (fun d : Int => (d : D))) :
    ∃ hist, (aggregateStep ⟨N, (b : D)⟩ s).aggregate = .binned data hist ∧
      hist.dist.length = N + 1 ∧
      hist.binCount 0 = samples.countP (fun d : Int => d ≤ b) ∧
      (∀ i, 0 < i → i < N →
        hist.binCount i = samples.countP (fun d : Int => i * b < d ∧ d ≤ (i + 1) * b)) ∧
      hist.binCount N = samples.countP (fun d : Int => N * b < d) ∧
      hist.count = samples.length ∧
      (∃ m ∈ samples, hist.min = (m : D) ∧ ∀ d ∈ samples, m ≤ d) ∧
      (∃ m ∈ samples, hist.max = (m : D) ∧ ∀ d ∈ samples, d ≤ m) ∧
      hist.sum = ((samples.sum : Int) : D) := by
  let cfg : TimerConfig D := ⟨N, (b : D)⟩
  have hpos : 0 < N := hN
  have hsorted := sortTimes_sorted (s.times data)
  have hperm := sortTimes_perm (s.times data)
  rw [hdata] at hsorted hperm
  have hoff : ∀ d ∈ sortTimes (samples.map (fun d : Int => (d : D))), OffBounds cfg d := by
    intro d hd
    obtain ⟨n, _, rfl⟩ := List.mem_map.mp (hperm.mem_iff.mp hd)
    exact offBounds_intCast N b n
  have hof := (histogramOf_isOf cfg hsorted hoff).perm hperm
  have hcast : samples.map (fun d : Int => (d : D)) ≠ [] := fun h => hne (List.map_eq_nil_iff.mp h)
  refine ⟨histogramOf cfg (sortTimes (samples.map (fun d : Int => (d : D)))), ?_, ?_, ?_, ?_, ?_, ?_,
    isLeast_intCast (hof.min hcast), isGreatest_intCast (hof.max hcast), ?_⟩
  · rw [aggregateStep_switched cfg hpc (hdata ▸ hcast), hdata]
  · rw [← List.length_map (f := Prod.fst), hof.lowers, List.length_map, length_binsFrom]
  · refine binCount_intCast hof (fun d => ?_)
    rw [binOf_intCast_iff hb (Nat.zero_le N)]
    simp [hpos]
  · intro i hi hiN
    refine binCount_intCast hof (fun d => ?_)
    rw [binOf_intCast_iff hb (Nat.le_of_lt hiN)]
    simp [hi, hiN]
  · refine binCount_intCast hof (fun d => ?_)
    rw [binOf_intCast_iff hb (Nat.le_refl N)]
    simp [hpos]
  · rw [hof.count, List.length_map]
  · rw [hof.sum]
    exact (Int.cast_list_sum samples).symm

end Whole

/-- Four durations that are not in order, one of them above the last bound. -/
theorem aggregate_bins_exact_unsorted :
    let s : TimerState ℚ :=
      { times := fun _ => [25, 5, 11, 15].map (fun d : Int => (d : ℚ)), aggregate := .switched 0 }
    ∃ hist, (aggregateStep ⟨2, ((10 : Int) : ℚ)⟩ s).aggregate = .binned 0 hist ∧
      hist.binCount 0 = 1 ∧ hist.binCount 1 = 2 ∧ hist.binCount 2 = 1 ∧ hist.count = 4 := by
  intro s
  have hne : [25, 5, 11, 15] ≠ ([] : List Int) := List.cons_ne_nil _ _
  have hpc : s.aggregate = .switched 0 := rfl
  obtain ⟨hist, hpc, _, hfirst, hbetween, hlast, hcount, _⟩ :=
    aggregate_bins_exact (N := 2) (b := 10) (by decide) (by decide) hne hpc rfl
  exact ⟨hist, hpc, hfirst, hbetween 1 (by decide) (by decide), hlast, hcount⟩

end Petrel
