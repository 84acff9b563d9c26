/-
  Petrel.Core.FiberSched — the poll interval of a worker thread.

  `fiber_sched_algorithm` polls the fibers of a thread from a keepalive timer.
  `update` counts the requests; each tick of the timer turns the count into
  two decaying rates and picks the next interval from the rates that have come
  to rest.  The state is kept for each thread (`thread_local`).

  The rates and the counter are exact numbers here, not `double` and
  `uint_fast64_t`.

  Main results:
    * `Settled.step`, `settled_after` — the rates are in order, and the long
      rate is ahead of the extra-long one by a gap.
    * `select_after_short` — a short interval is not followed by an extra long
      one.
    * `poll_interval_backs_off_in_order` — the interval over whole runs.
    * `exists_select_extralong` — a thread without requests backs off to the
      end.
-/

import Petrel.Framework.LeakyRate

namespace Petrel

open Framework

/-! ## §1. The algorithm. -/

/-- `WAIT_INTERVAL_SHORT`, `WAIT_INTERVAL_LONG`, `WAIT_INTERVAL_EXTRALONG`. -/
inductive WaitInterval where
  | short
  | long
  | extralong
  deriving DecidableEq

namespace WaitInterval

def nanoseconds : WaitInterval → Nat
  | .short => 100
  | .long => 1000000
  | .extralong => 30000000

end WaitInterval

/-- `m_counter`, `m_rate_l`, `m_rate_xl` and `m_expires` of a thread. -/
structure FiberSched where
  counter : Nat := 0
  rateL : ℚ := 1
  rateXl : ℚ := 1
  expires : WaitInterval := .short
  deriving DecidableEq

namespace FiberSched

/-- `fiber_sched_algorithm::update`. -/
def update (s : FiberSched) : FiberSched :=
  let s := { s with counter := s.counter + 1 }
  if s.expires ≠ .short then { s with expires := .short } else s

/-- `fiber_sched_algorithm::on_empty_io_service`, the tick.  The keepalive
timer is set to the new `expires`. -/
def onEmptyIoService (s : FiberSched) : FiberSched :=
  let s := { s with rateL := s.rateL * 0.99999 - 0.0001 + s.counter }
  let s := { s with rateXl := s.rateXl * 0.99999 - 0.00009 + s.counter }
  let s := { s with counter := 0 }
  let s := if s.rateL < 0 then { s with rateL := 0 } else s
  let s := if s.rateXl < 0 then { s with rateXl := 0 } else s
  if s.rateXl = 0 then
    if s.expires ≠ .extralong then { s with expires := .extralong } else s
  else if s.rateL = 0 then
    if s.expires ≠ .long then { s with expires := .long } else s
  else if s.expires ≠ .short then { s with expires := .short }
  else s

end FiberSched

/-- What happens to the state of a thread.  The constructor of the algorithm
makes the first tick. -/
inductive SchedAction where
  | update
  | tick
  deriving DecidableEq

def schedStep (s : FiberSched) : SchedAction → FiberSched
  | .update => s.update
  | .tick => s.onEmptyIoService

/-- The state after a run from the start of the thread. -/
def afterActions (as : List SchedAction) : FiberSched := as.foldl schedStep {}

/-- The interval that a tick selects after a run. -/
def selectAfter (as : List SchedAction) : WaitInterval :=
  (afterActions as).onEmptyIoService.expires

@[simp] theorem afterActions_append (as bs : List SchedAction) :
    afterActions (as ++ bs) = bs.foldl schedStep (afterActions as) := List.foldl_append

/-! ## §2. A tick in terms of leaky rates. -/

/-- The interval for two rates. -/
def pollInterval (rateL rateXl : ℚ) : WaitInterval :=
  if rateXl = 0 then .extralong else if rateL = 0 then .long else .short

theorem pollInterval_eq_short_iff {rateL rateXl : ℚ} :
    pollInterval rateL rateXl = .short ↔ rateXl ≠ 0 ∧ rateL ≠ 0 := by
  unfold pollInterval
  by_cases hxl : rateXl = 0 <;> by_cases hl : rateL = 0 <;> simp [hxl, hl]

theorem pollInterval_eq_extralong_iff {rateL rateXl : ℚ} :
    pollInterval rateL rateXl = .extralong ↔ rateXl = 0 := by
  unfold pollInterval
  by_cases hxl : rateXl = 0 <;> by_cases hl : rateL = 0 <;> simp [hxl, hl]

/-- Lower rates do not select a shorter interval. -/
theorem pollInterval_anti {rateL rateXl rateL' rateXl' : ℚ} (hl : 0 ≤ rateL') (hxl : 0 ≤ rateXl')
    (hll : rateL' ≤ rateL) (hxlxl : rateXl' ≤ rateXl) :
    (pollInterval rateL rateXl).nanoseconds ≤ (pollInterval rateL' rateXl').nanoseconds := by
  unfold pollInterval
  by_cases hxl0 : rateXl = 0
  · have hxl0' : rateXl' = 0 := le_antisymm (hxl0 ▸ hxlxl) hxl
    rw [if_pos hxl0, if_pos hxl0']
  · by_cases hl0 : rateL = 0
    · have hl0' : rateL' = 0 := le_antisymm (hl0 ▸ hll) hl
      rw [if_neg hxl0, if_pos hl0, if_pos hl0']
      split_ifs <;> decide
    · rw [if_neg hxl0, if_neg hl0]
      split_ifs <;> decide

namespace FiberSched

theorem setExpires_eq (s : FiberSched) (w : WaitInterval) :
    (if s.expires ≠ w then { s with expires := w } else s) = { s with expires := w } := by
  by_cases h : s.expires = w
  · rw [if_neg (not_not.mpr h), ← h]
  · rw [if_pos h]

theorem clip_eq (x : ℚ) : (if x < 0 then 0 else x) = max 0 x := by
  rcases lt_or_ge x 0 with h | h
  · rw [if_pos h, max_eq_left h.le]
  · rw [if_neg (not_lt.mpr h), max_eq_right h]

theorem update_eq (s : FiberSched) :
    s.update = { s with counter := s.counter + 1, expires := .short } :=
  setExpires_eq _ _

/-- **What a tick does**: both rates leak, the counter starts anew, and the
rates decide on the interval. -/
theorem onEmptyIoService_eq (s : FiberSched) :
    s.onEmptyIoService =
      { counter := 0
        rateL := leak 0.99999 0.0001 s.counter s.rateL
        rateXl := leak 0.99999 0.00009 s.counter s.rateXl
        expires := pollInterval (leak 0.99999 0.0001 s.counter s.rateL)
          (leak 0.99999 0.00009 s.counter s.rateXl) } := by
  unfold onEmptyIoService pollInterval leak
  simp only [setExpires_eq, ← clip_eq]
  split_ifs <;> simp_all

/-! ## §3. The invariant. -/

/-- The rates are in order, and the gap between them is one that the upper rate
needs more than a tick to close. -/
structure Settled (s : FiberSched) : Prop where
  rateL : 0 ≤ s.rateL
  order : s.rateL ≤ s.rateXl
  gap : Gap 11 10 1 s.rateL s.rateXl

namespace Settled

theorem rateXl {s : FiberSched} (h : s.Settled) : 0 ≤ s.rateXl := h.rateL.trans h.order

theorem init : Settled {} := ⟨by norm_num, by norm_num, fun _ => by norm_num⟩

theorem update {s : FiberSched} (h : s.Settled) : s.update.Settled := by
  rw [update_eq]
  exact ⟨h.rateL, h.order, h.gap⟩

theorem onEmptyIoService {s : FiberSched} (h : s.Settled) : s.onEmptyIoService.Settled := by
  rw [onEmptyIoService_eq]
  refine ⟨leak_nonneg _ _ _ _, leak_mono (by norm_num) (by norm_num) h.order, ?_⟩
  refine h.gap.leak (by norm_num) (by norm_num) (by norm_num) (Nat.cast_nonneg _) (by norm_num)
    h.rateL h.rateXl (by norm_num) ?_
  -- the counter is a whole number, so a burst is at least 1
  intro hburst
  have hone : (1 : ℚ) ≤ s.counter := by exact_mod_cast hburst
  linarith

/-- The step lemma. -/
theorem step {s : FiberSched} (h : s.Settled) (a : SchedAction) : (schedStep s a).Settled := by
  cases a with
  | update => exact h.update
  | tick => exact h.onEmptyIoService

/-- A tick that finds the long rate running does not select the extra long
interval. -/
theorem expires_ne_extralong {s : FiberSched} (h : s.Settled) (hrun : 0 < s.rateL) :
    s.onEmptyIoService.expires ≠ .extralong := by
  rw [onEmptyIoService_eq]
  intro hselect
  have hpos : 0 < leak 0.99999 0.00009 (s.counter : ℚ) s.rateXl :=
    h.gap.pos hrun (by norm_num) (by norm_num) (by norm_num) (Nat.cast_nonneg _) (by norm_num)
  exact hpos.ne' (pollInterval_eq_extralong_iff.mp hselect)

/-- A tick that selects the short interval leaves the long rate running. -/
theorem rateL_pos_of_short {s : FiberSched} (hselect : s.onEmptyIoService.expires = .short) :
    0 < s.onEmptyIoService.rateL := by
  rw [onEmptyIoService_eq] at hselect ⊢
  exact lt_of_le_of_ne (leak_nonneg _ _ _ _) (Ne.symm (pollInterval_eq_short_iff.mp hselect).2)

end Settled

end FiberSched

theorem settled_foldl {s : FiberSched} (h : s.Settled) (as : List SchedAction) :
    (as.foldl schedStep s).Settled := by
  induction as generalizing s with
  | nil => exact h
  | cons a as ih => exact ih (h.step a)

/-- **The run lemma.** -/
theorem settled_after (as : List SchedAction) : (afterActions as).Settled :=
  settled_foldl .init as

/-! ## §4. The interval over a run. -/

/-- The updates between two ticks only count. -/
theorem foldl_updates (s : FiberSched) (n : Nat) :
    (List.replicate (n + 1) SchedAction.update).foldl schedStep s =
      { s with counter := s.counter + (n + 1), expires := .short } := by
  induction n generalizing s with
  | zero => exact s.update_eq
  | succ n ih =>
      rw [List.replicate_succ, List.foldl_cons, ih]
      show { s.update with counter := s.update.counter + (n + 1), expires := .short } = _
      rw [s.update_eq, Nat.add_assoc, Nat.add_comm 1]

/-- One request is enough for a short interval. -/
theorem select_after_update (as : List SchedAction) (n : Nat) :
    selectAfter (as ++ List.replicate (n + 1) .update) = .short := by
  unfold selectAfter
  rw [afterActions_append, foldl_updates, FiberSched.onEmptyIoService_eq]
  have hsettled := settled_after as
  have hone : (1 : ℚ) ≤ ((afterActions as).counter + (n + 1) : ℕ) := by
    exact_mod_cast Nat.le_add_left 1 _
  refine pollInterval_eq_short_iff.mpr ⟨ne_of_gt ?_, ne_of_gt ?_⟩
  · exact leak_pos (by norm_num) hsettled.rateXl (by linarith)
  · exact leak_pos (by norm_num) hsettled.rateL (by linarith)

/-- A tick that follows a tick does not select a shorter interval. -/
theorem select_after_tick (as : List SchedAction) :
    (selectAfter as).nanoseconds ≤ (selectAfter (as ++ [.tick])).nanoseconds := by
  have hsettled : ((afterActions as).onEmptyIoService).Settled :=
    (settled_after as).onEmptyIoService
  have hcounter : ((afterActions as).onEmptyIoService).counter = 0 := by
    rw [FiberSched.onEmptyIoService_eq]
  have hfirst : selectAfter as = pollInterval (afterActions as).onEmptyIoService.rateL
      (afterActions as).onEmptyIoService.rateXl := by
    unfold selectAfter
    rw [FiberSched.onEmptyIoService_eq]
  rw [hfirst]
  unfold selectAfter
  rw [afterActions_append]
  show _ ≤ ((afterActions as).onEmptyIoService.onEmptyIoService.expires).nanoseconds
  generalize (afterActions as).onEmptyIoService = s at hsettled hcounter
  rw [s.onEmptyIoService_eq, hcounter, Nat.cast_zero]
  exact pollInterval_anti (leak_nonneg _ _ _ _) (leak_nonneg _ _ _ _)
    (leak_idle_le (by norm_num) (by norm_num) hsettled.rateL)
    (leak_idle_le (by norm_num) (by norm_num) hsettled.rateXl)

theorem select_after_ticks (as : List SchedAction) (n : Nat) :
    (selectAfter as).nanoseconds ≤
      (selectAfter (as ++ List.replicate n .tick)).nanoseconds := by
  induction n with
  | zero => simp
  | succ n ih =>
      rw [List.replicate_succ', ← List.append_assoc]
      exact ih.trans (select_after_tick _)

/-- After a tick with a short interval the long rate runs, until a tick selects
the long interval. -/
theorem long_or_running {as : List SchedAction} (hshort : selectAfter as = .short)
    (bs : List SchedAction) :
    (∃ cs ds, bs = cs ++ .tick :: ds ∧ selectAfter (as ++ .tick :: cs) = .long) ∨
      0 < (afterActions (as ++ .tick :: bs)).rateL := by
  induction bs using List.reverseRecOn with
  | nil =>
      right
      rw [afterActions_append]
      exact FiberSched.Settled.rateL_pos_of_short hshort
  | append_singleton bs a ih =>
      rcases ih with ⟨cs, ds, rfl, hlong⟩ | hrun
      · exact .inl ⟨cs, ds ++ [a], by simp, hlong⟩
      · have hsnoc : afterActions (as ++ .tick :: (bs ++ [a])) =
            schedStep (afterActions (as ++ .tick :: bs)) a := by
          rw [← List.cons_append, ← List.append_assoc, afterActions_append]
          rfl
        cases a with
        | update =>
            right
            rw [hsnoc, schedStep, FiberSched.update_eq]
            exact hrun
        | tick =>
            have hskip := (settled_after (as ++ .tick :: bs)).expires_ne_extralong hrun
            cases hselect : selectAfter (as ++ .tick :: bs) with
            | short =>
                right
                rw [hsnoc]
                exact FiberSched.Settled.rateL_pos_of_short hselect
            | long => exact .inl ⟨bs, [], rfl, hselect⟩
            | extralong => exact absurd hselect hskip

/-- Between a short and an extra long interval there is a long one. -/
theorem select_long_between {as bs : List SchedAction} (hshort : selectAfter as = .short)
    (hextralong : selectAfter (as ++ .tick :: bs) = .extralong) :
    ∃ cs ds, bs = cs ++ .tick :: ds ∧ selectAfter (as ++ .tick :: cs) = .long := by
  rcases long_or_running hshort bs with hlong | hrun
  · exact hlong
  · exact absurd hextralong ((settled_after _).expires_ne_extralong hrun)

/-- **The poll interval backs off in order and recovers at once.**  In every
run the rates are in order; a tick after an update selects the short interval;
ticks in a row do not make the interval shorter; and from a short to an extra
long interval the thread goes through a long one. -/
theorem poll_interval_backs_off_in_order :
    (∀ as : List SchedAction, 0 ≤ (afterActions (as ++ [SchedAction.tick])).rateL ∧
      (afterActions (as ++ [SchedAction.tick])).rateL ≤
        (afterActions (as ++ [SchedAction.tick])).rateXl) ∧
    (∀ (as : List SchedAction) (n : Nat),
      selectAfter (as ++ List.replicate (n + 1) SchedAction.update) = WaitInterval.short) ∧
    (∀ (as : List SchedAction) (n : Nat), (selectAfter as).nanoseconds ≤
      (selectAfter (as ++ List.replicate n SchedAction.tick)).nanoseconds) ∧
    (∀ as bs : List SchedAction, selectAfter as = WaitInterval.short →
      selectAfter (as ++ SchedAction.tick :: bs) = WaitInterval.extralong →
      ∃ cs ds, bs = cs ++ SchedAction.tick :: ds ∧
        selectAfter (as ++ SchedAction.tick :: cs) = WaitInterval.long) := by
  refine ⟨?_, select_after_update, select_after_ticks, ?_⟩
  · intro as
    have hsettled := settled_after (as ++ [.tick])
    exact ⟨hsettled.rateL, hsettled.order⟩
  · intro as bs hshort hextralong
    exact select_long_between hshort hextralong

/-! ## §5. A thread without requests. -/

/-- Ticks in a row, without updates, iterate the decay of the extra long
rate. -/
theorem foldl_ticks {s : FiberSched} (hcounter : s.counter = 0) (n : Nat) :
    ((List.replicate n SchedAction.tick).foldl schedStep s).counter = 0 ∧
      ((List.replicate n SchedAction.tick).foldl schedStep s).rateXl =
        (leak 0.99999 0.00009 0)^[n] s.rateXl := by
  induction n with
  | zero => exact ⟨hcounter, rfl⟩
  | succ n ih =>
      rw [List.replicate_succ', List.foldl_append, Function.iterate_succ_apply', ← ih.2]
      show FiberSched.counter (FiberSched.onEmptyIoService _) = 0 ∧
        FiberSched.rateXl (FiberSched.onEmptyIoService _) = _
      rw [FiberSched.onEmptyIoService_eq, ih.1]
      exact ⟨rfl, by norm_num⟩

/-- **A thread without requests backs off to the end**, from wherever it
is. -/
theorem exists_select_extralong (as : List SchedAction) :
    ∃ n, selectAfter (as ++ List.replicate n .tick) = .extralong := by
  have hsettled := (settled_after as).onEmptyIoService
  have hcounter : (afterActions as).onEmptyIoService.counter = 0 := by
    rw [FiberSched.onEmptyIoService_eq]
  obtain ⟨n, hrest⟩ := exists_iterate_leak_eq_zero (q := (0.99999 : ℚ)) (d := 0.00009)
    (by norm_num) (by norm_num) hsettled.rateXl
  refine ⟨n + 1, ?_⟩
  obtain ⟨hidle, hrate⟩ := foldl_ticks hcounter n
  have hlast : afterActions (as ++ List.replicate (n + 1) .tick) =
      (List.replicate n SchedAction.tick).foldl schedStep (afterActions as).onEmptyIoService := by
    rw [afterActions_append, List.replicate_succ, List.foldl_cons]
    rfl
  unfold selectAfter
  rw [FiberSched.onEmptyIoService_eq, hlast, hidle, hrate]
  refine pollInterval_eq_extralong_iff.mpr ?_
  rw [Function.iterate_succ_apply'] at hrest
  exact_mod_cast hrest

end Petrel
