/-
  Petrel.Framework.LeakyRate — a rate that decays, and two of them in step.

  A leaky rate loses a share and a fixed drain in each turn, gains what came
  in since the last turn, and is clipped at 0.  Two rates that gain the same
  stay in the order of their drains.  Order alone does not say that the lower
  one comes to rest a full turn before the upper one: for this the rates keep
  a gap, `b * x + e ≤ a * y`, for as long as the lower one is not at rest.

  Main results:
    * `leak_mono` — two rates stay in order.
    * `Gap.leak`  — the gap is kept by a turn.
    * `Gap.pos`   — while the lower rate runs, the upper one outlives the
      next turn.
    * `exists_iterate_leak_eq_zero` — a rate that gains nothing comes to rest.
-/

import Mathlib

namespace Petrel.Framework

section LeakyRate

variable {K : Type*} [CommRing K] [LinearOrder K]

/-! ## §1. One rate. -/

/-- The rate `x` after a turn: the share `q` is left of it, the drain `d` is
lost, and `c` is gained. -/
def leak (q d c x : K) : K := max 0 (x * q - d + c)

theorem leak_nonneg (q d c x : K) : 0 ≤ leak q d c x := le_max_left 0 _

theorem le_leak (q d c x : K) : x * q - d + c ≤ leak q d c x := le_max_right 0 _

/-- A rate that is not at rest after the turn was not clipped. -/
theorem leak_eq_of_pos {q d c x : K} (h : 0 < leak q d c x) : leak q d c x = x * q - d + c := by
  rcases max_choice 0 (x * q - d + c) with hmax | hmax
  · exact absurd h (by rw [leak, hmax]; exact lt_irrefl 0)
  · exact hmax

variable [IsStrictOrderedRing K]

/-- **Two rates stay in order** when the greater one has the smaller drain. -/
theorem leak_mono {q d d' c x x' : K} (hq : 0 ≤ q) (hd : d' ≤ d) (hx : x ≤ x') :
    leak q d c x ≤ leak q d' c x' := by
  have hshare : x * q ≤ x' * q := mul_le_mul_of_nonneg_right hx hq
  exact max_le_max le_rfl (by linarith)

/-- A turn that brings more than the drain sets the rate going. -/
theorem leak_pos {q d c x : K} (hq : 0 ≤ q) (hx : 0 ≤ x) (hc : d < c) : 0 < leak q d c x := by
  have hshare : 0 ≤ x * q := mul_nonneg hx hq
  exact lt_of_lt_of_le (by linarith) (le_leak q d c x)

/-- A turn that brings nothing does not raise the rate. -/
theorem leak_idle_le {q d x : K} (hq : q ≤ 1) (hd : 0 ≤ d) (hx : 0 ≤ x) : leak q d 0 x ≤ x := by
  have hshare : x * q ≤ x := mul_le_of_le_one_right hx hq
  exact max_le hx (by linarith)

/-- A turn that brings nothing takes away the drain, or all there is. -/
theorem leak_idle_le_drain {q d x : K} (hq : q ≤ 1) (hx : 0 ≤ x) :
    leak q d 0 x ≤ max 0 (x - d) := by
  have hshare : x * q ≤ x := mul_le_of_le_one_right hx hq
  exact max_le_max le_rfl (by linarith)

/-- What turns that bring nothing leave of a rate. -/
theorem iterate_leak_idle_le {q d x : K} (hq : q ≤ 1) (hd : 0 ≤ d) (hx : 0 ≤ x) (n : Nat) :
    (leak q d 0)^[n] x ≤ max 0 (x - n * d) := by
  induction n generalizing x with
  | zero => simp [hx]
  | succ n ih =>
      rw [Function.iterate_succ_apply]
      have hturn : leak q d 0 x ≤ max 0 (x - d) := leak_idle_le_drain hq hx
      refine (ih (leak_nonneg q d 0 x)).trans (max_le (le_max_left 0 _) ?_)
      rcases le_total (x - d) 0 with hrest | hrest
      · rw [max_eq_left hrest] at hturn
        have hdrain : 0 ≤ (n : K) * d := mul_nonneg n.cast_nonneg hd
        exact le_max_of_le_left (by linarith)
      · rw [max_eq_right hrest] at hturn
        push_cast
        exact le_max_of_le_right (by linarith)

/-- **A rate that gains nothing comes to rest.** -/
theorem exists_iterate_leak_eq_zero [Archimedean K] {q d x : K} (hq : q ≤ 1) (hd : 0 < d)
    (hx : 0 ≤ x) : ∃ n, (leak q d 0)^[n + 1] x = 0 := by
  obtain ⟨n, hn⟩ := Archimedean.arch x hd
  refine ⟨n, le_antisymm ?_ ?_⟩
  · refine (iterate_leak_idle_le hq hd.le hx (n + 1)).trans (max_le le_rfl ?_)
    rw [nsmul_eq_mul] at hn
    push_cast
    linarith
  · rw [Function.iterate_succ_apply']
    exact leak_nonneg q d 0 _

/-! ## §2. Two rates in step. -/

/-- While the lower rate `x` is not at rest, the upper rate `y` is ahead. -/
def Gap (a b e x y : K) : Prop := 0 < x → b * x + e ≤ a * y

/-- **The gap is kept by a turn.**  The difference of the drains makes up for
the share of the gap that is lost (`hidle`), and what a turn brings to a lower
rate at rest opens the gap anew (`hburst`). -/
theorem Gap.leak {a b e q d d' c x y : K} (hgap : Gap a b e x y) (hb : 0 ≤ b) (hba : b ≤ a)
    (hq : 0 ≤ q) (hc : 0 ≤ c) (hd : 0 ≤ d) (hx : 0 ≤ x) (hy : 0 ≤ y)
    (hidle : (1 - q) * e ≤ b * d - a * d')
    (hburst : 0 < c → e ≤ (a - b) * c + (b * d - a * d')) :
    Gap a b e (leak q d c x) (leak q d' c y) := by
  intro hpos
  have ha : 0 ≤ a := hb.trans hba
  have hupper : a * (y * q - d' + c) ≤ a * Framework.leak q d' c y :=
    mul_le_mul_of_nonneg_left (le_leak q d' c y) ha
  have hgain : 0 ≤ (a - b) * c := mul_nonneg (sub_nonneg.mpr hba) hc
  have hlower := leak_eq_of_pos hpos
  rcases hx.lt_or_eq with hrun | hrest
  · -- the gap there was, less the share that is lost
    have hshare : (b * x + e) * q ≤ a * y * q := mul_le_mul_of_nonneg_right (hgap hrun) hq
    rw [hlower]
    linarith
  · -- the lower rate was at rest: the turn brought more than its drain
    subst hrest
    have hcpos : 0 < c := by
      rw [hlower, zero_mul] at hpos
      linarith
    have hshare : 0 ≤ a * (y * q) := mul_nonneg ha (mul_nonneg hy hq)
    have := hburst hcpos
    rw [hlower]
    linarith

/-- **The upper rate outlives the next turn** while the lower one runs. -/
theorem Gap.pos {a b e q d' c x y : K} (hgap : Gap a b e x y) (hx : 0 < x) (ha : 0 < a)
    (hb : 0 ≤ b) (hq : 0 ≤ q) (hc : 0 ≤ c) (hdrain : a * d' < e * q) :
    0 < Framework.leak q d' c y := by
  have hbx : 0 ≤ b * x := mul_nonneg hb hx.le
  have hahead : e ≤ a * y := by linarith [hgap hx]
  have hshare : e * q ≤ a * y * q := mul_le_mul_of_nonneg_right hahead hq
  have hscaled : a * d' < a * (y * q) := by linarith
  have hleft : d' < y * q := lt_of_mul_lt_mul_left hscaled ha.le
  exact lt_of_lt_of_le (by linarith) (le_leak q d' c y)

end LeakyRate

end Petrel.Framework
