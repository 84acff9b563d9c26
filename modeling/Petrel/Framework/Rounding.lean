/-
  Petrel.Framework.Rounding — numbers of `p` bits, and counting with them.

  A float is an integer below `2 ^ p` times a power of two.  A sum is rounded to
  the nearest float, and half way to the one with the even significand; the
  exponents are not bounded here.  Counting down by one is exact up to `2 ^ p`.
  Behind it one is half a unit: the first number goes back, and from the next
  one on a count stays where it is.

  Main results:
    * `IsFloat.roundTo_eq`, `isFloat_roundTo` — the floats are what is rounded.
    * `IsFloat.le_roundTo` — floats bound the rounding.
    * `usedUp_iff`         — the floats from which a count comes to 0.
-/

import Mathlib

namespace Petrel.Framework

section Rounding

/-! ## §1. To the nearest integer. -/

/-- The nearest integer, and of two the even one. -/
def roundEven (x : ℚ) : ℤ :=
  if x - ⌊x⌋ < 1 / 2 then ⌊x⌋
  else if x - ⌊x⌋ = 1 / 2 ∧ Even ⌊x⌋ then ⌊x⌋
  else ⌊x⌋ + 1

theorem roundEven_intCast (n : ℤ) : roundEven n = n := by
  unfold roundEven
  rw [Int.floor_intCast, sub_self]
  norm_num

theorem floor_le_roundEven (x : ℚ) : ⌊x⌋ ≤ roundEven x := by
  unfold roundEven
  split
  · exact le_rfl
  · split
    · exact le_rfl
    · omega

theorem roundEven_le_floor_add_one (x : ℚ) : roundEven x ≤ ⌊x⌋ + 1 := by
  unfold roundEven
  split
  · omega
  · split <;> omega

/-- Integers bound the nearest one from below. -/
theorem le_roundEven {n : ℤ} {x : ℚ} (h : (n : ℚ) ≤ x) : n ≤ roundEven x :=
  (Int.le_floor.mpr h).trans (floor_le_roundEven x)

/-- And from above. -/
theorem roundEven_le {n : ℤ} {x : ℚ} (h : x ≤ n) : roundEven x ≤ n := by
  rcases h.eq_or_lt with rfl | hlt
  · rw [roundEven_intCast]
  · have hfloor : ⌊x⌋ < n := Int.floor_lt.mpr hlt
    exact (roundEven_le_floor_add_one x).trans hfloor

/-- From the middle on behind an odd number the next one is nearest. -/
theorem roundEven_of_odd {n : ℤ} (hn : ¬ Even n) {x : ℚ} (hlow : n + 1 / 2 ≤ x) (hhigh : x < n + 1) :
    roundEven x = n + 1 := by
  have hfloor : ⌊x⌋ = n := Int.floor_eq_iff.mpr ⟨by linarith, hhigh⟩
  unfold roundEven
  rw [hfloor, if_neg (by linarith), if_neg (fun h => hn h.2)]

/-- Half way behind an even number this one is. -/
theorem roundEven_half {n : ℤ} (hn : Even n) : roundEven (n + 1 / 2) = n := by
  have hfloor : ⌊(n : ℚ) + 1 / 2⌋ = n := Int.floor_eq_iff.mpr ⟨by linarith, by linarith⟩
  unfold roundEven
  rw [hfloor, if_neg (by linarith), if_pos ⟨by ring, hn⟩]

/-! ## §2. To `p` bits. -/

/-- The numbers with a significand of `p` bits. -/
def IsFloat (p : ℕ) (q : ℚ) : Prop := ∃ m e : ℤ, |m| < 2 ^ p ∧ q = m * 2 ^ e

/-- The unit in the last of the `p` places of a number. -/
def ulp (p : ℕ) (q : ℚ) : ℚ := 2 ^ (Int.log 2 |q| + 1 - p)

/-- The nearest number of `p` bits, and of two the one with the even significand;
there is no bound on the exponent. -/
def roundTo (p : ℕ) (q : ℚ) : ℚ := roundEven (q / ulp p q) * ulp p q

variable {p : ℕ} {q : ℚ}

theorem ulp_pos (p : ℕ) (q : ℚ) : 0 < ulp p q := zpow_pos two_pos _

@[simp] theorem roundTo_zero (p : ℕ) : roundTo p 0 = 0 := by
  unfold roundTo
  rw [zero_div, ← Int.cast_zero, roundEven_intCast, Int.cast_zero, zero_mul]

/-- The significand of a number that is not zero has its full length. -/
theorem div_ulp_bounds (hq : q ≠ 0) : 2 ^ ((p : ℤ) - 1) ≤ |q| / ulp p q ∧ |q| / ulp p q < 2 ^ p := by
  have hpos : 0 < |q| := abs_pos.mpr hq
  have hlow := Int.zpow_log_le_self (b := 2) one_lt_two hpos
  have hhigh := Int.lt_zpow_succ_log_self (b := 2) one_lt_two |q|
  push_cast at hlow hhigh
  have hsplit : ∀ e : ℤ, (2 : ℚ) ^ e * ulp p q = 2 ^ (e + (Int.log 2 |q| + 1 - p)) :=
    fun e => (zpow_add₀ two_ne_zero _ _).symm
  constructor
  · rw [le_div_iff₀ (ulp_pos p q), hsplit, show (p : ℤ) - 1 + (Int.log 2 |q| + 1 - p) =
      Int.log 2 |q| by ring]
    exact hlow
  · rw [div_lt_iff₀ (ulp_pos p q), ← zpow_natCast, hsplit, show (p : ℤ) + (Int.log 2 |q| + 1 - p) =
      Int.log 2 |q| + 1 by ring]
    exact hhigh

/-- **A float is a whole number of units** of any number of its binade or below. -/
theorem IsFloat.div_ulp {a : ℚ} (ha : IsFloat p a) (hq : (2 : ℚ) ^ Int.log 2 |q| ≤ |a|) :
    ∃ n : ℤ, a / ulp p q = n := by
  obtain ⟨m, e, hm, rfl⟩ := ha
  have hm' : |(m : ℚ)| < 2 ^ (p : ℤ) := by
    rw [zpow_natCast, ← Int.cast_abs]
    exact_mod_cast hm
  have hlt : (2 : ℚ) ^ Int.log 2 |q| < 2 ^ (p + e) := by
    refine lt_of_le_of_lt hq ?_
    rw [abs_mul, abs_of_pos (zpow_pos two_pos e : (0 : ℚ) < 2 ^ e), zpow_add₀ two_ne_zero]
    exact mul_lt_mul_of_pos_right hm' (zpow_pos two_pos e)
  have hexp : Int.log 2 |q| < p + e := (zpow_lt_zpow_iff_right₀ one_lt_two).mp hlt
  obtain ⟨k, hk⟩ := Int.le.dest (show Int.log 2 |q| + 1 - p ≤ e by omega)
  refine ⟨m * 2 ^ k, ?_⟩
  unfold ulp
  rw [← hk, zpow_add₀ two_ne_zero, zpow_natCast]
  push_cast
  field_simp

/-- A float is its own rounding. -/
theorem IsFloat.roundTo_eq (h : IsFloat p q) : roundTo p q = q := by
  by_cases hq : q = 0
  · rw [hq, roundTo_zero]
  · have hlog := Int.zpow_log_le_self (b := 2) one_lt_two (abs_pos.mpr hq)
    push_cast at hlog
    obtain ⟨n, hn⟩ := h.div_ulp hlog
    unfold roundTo
    rw [hn, roundEven_intCast, ← hn, div_mul_cancel₀ _ (ulp_pos p q).ne']

/-- **Floats bound the rounding** of a number from below. -/
theorem IsFloat.le_roundTo (hp : 0 < p) {a : ℚ} (ha : IsFloat p a) (h : a ≤ q) :
    a ≤ roundTo p q := by
  rcases eq_or_ne q 0 with rfl | hq
  · rw [roundTo_zero]
    exact h
  unfold roundTo
  rcases le_or_gt ((2 : ℚ) ^ Int.log 2 |q|) |a| with hbinade | hbelow
  · obtain ⟨n, hn⟩ := ha.div_ulp hbinade
    have hunits : (n : ℚ) ≤ q / ulp p q := hn ▸ div_le_div_of_nonneg_right h (ulp_pos p q).le
    rw [← div_le_iff₀ (ulp_pos p q), hn]
    exact_mod_cast le_roundEven hunits
  · -- below the binade of a positive number
    have hpos : 0 < q := by
      by_contra hneg
      have habs : |q| ≤ |a| := by
        rw [abs_of_nonpos (not_lt.mp hneg), abs_of_nonpos (h.trans (not_lt.mp hneg))]
        exact neg_le_neg h
      have hlog := Int.zpow_log_le_self (b := 2) one_lt_two (abs_pos.mpr hq)
      push_cast at hlog
      exact absurd (hlog.trans habs) (not_le_of_gt hbelow)
    obtain ⟨k, rfl⟩ := Nat.exists_eq_add_of_le' hp
    have hlow := (div_ulp_bounds (p := k + 1) hq).1
    rw [abs_of_pos hpos, show ((k + 1 : ℕ) : ℤ) - 1 = (k : ℤ) by push_cast; ring, zpow_natCast] at hlow
    have hunits : (2 : ℤ) ^ k ≤ roundEven (q / ulp (k + 1) q) := le_roundEven (by push_cast; exact hlow)
    have hstart : (2 : ℚ) ^ k * ulp (k + 1) q = 2 ^ Int.log 2 |q| := by
      unfold ulp
      rw [← zpow_natCast, ← zpow_add₀ two_ne_zero]
      congr 1
      push_cast
      ring
    calc a ≤ |a| := le_abs_self a
      _ ≤ 2 ^ k * ulp (k + 1) q := hstart ▸ hbelow.le
      _ ≤ _ := mul_le_mul_of_nonneg_right (by exact_mod_cast hunits) (ulp_pos _ q).le

/-- A negative number stays one. -/
theorem roundTo_neg (hp : 0 < p) (hq : q < 0) : roundTo p q < 0 := by
  obtain ⟨k, rfl⟩ := Nat.exists_eq_add_of_le' hp
  have hlow := (div_ulp_bounds (p := k + 1) hq.ne).1
  rw [abs_of_neg hq, show ((k + 1 : ℕ) : ℤ) - 1 = (k : ℤ) by push_cast; ring, zpow_natCast,
    neg_div] at hlow
  have hunits : roundEven (q / ulp (k + 1) q) ≤ -2 ^ k :=
    roundEven_le (by push_cast; linarith)
  have hneg : roundEven (q / ulp (k + 1) q) < 0 := lt_of_le_of_lt hunits (by simp)
  exact mul_neg_of_neg_of_pos (by exact_mod_cast hneg) (ulp_pos _ q)

/-- **What is rounded is a float.** -/
theorem isFloat_roundTo (hp : 0 < p) (q : ℚ) : IsFloat p (roundTo p q) := by
  rcases eq_or_ne q 0 with rfl | hq
  · exact ⟨0, 0, by simp, by simp⟩
  have hbound := (div_ulp_bounds (p := p) hq).2.le
  rw [← abs_of_pos (ulp_pos p q), ← abs_div, abs_le] at hbound
  have hlow : -2 ^ p ≤ roundEven (q / ulp p q) := le_roundEven (by push_cast; exact hbound.1)
  have hhigh : roundEven (q / ulp p q) ≤ 2 ^ p := roundEven_le (by push_cast; exact hbound.2)
  unfold roundTo
  generalize roundEven (q / ulp p q) = n at hlow hhigh
  rcases (abs_le.mpr ⟨hlow, hhigh⟩).lt_or_eq with hlt | heq
  · exact ⟨n, _, hlt, rfl⟩
  · -- the significand has become one bit longer
    have hone : (1 : ℤ) < 2 ^ p := one_lt_pow₀ one_lt_two hp.ne'
    have hcarry : (2 : ℚ) ^ p * ulp p q = 2 ^ (Int.log 2 |q| + 1) := by
      unfold ulp
      rw [← zpow_natCast, ← zpow_add₀ two_ne_zero]
      congr 1
      ring
    rcases eq_or_eq_neg_of_abs_eq heq with rfl | rfl
    · refine ⟨1, Int.log 2 |q| + 1, by simpa using hone, ?_⟩
      push_cast
      rw [hcarry, one_mul]
    · refine ⟨-1, Int.log 2 |q| + 1, by simpa using hone, ?_⟩
      push_cast
      rw [neg_mul, hcarry, neg_one_mul]

/-! ## §3. Counting down. -/

/-- One is taken from a number of `p` bits. -/
def countDown (p : ℕ) (q : ℚ) : ℚ := roundTo p (q - 1)

theorem isFloat_natCast (hp : 0 < p) {n : ℕ} (hn : n ≤ 2 ^ p) : IsFloat p n := by
  rcases hn.lt_or_eq with hlt | rfl
  · exact ⟨n, 0, by rw [abs_of_nonneg (Int.natCast_nonneg n)]; exact_mod_cast hlt, by simp⟩
  · have hone : (1 : ℤ) < 2 ^ p := one_lt_pow₀ one_lt_two hp.ne'
    exact ⟨1, p, by simpa using hone, by simp⟩

/-- Up to `2 ^ p` every number is counted. -/
theorem countDown_succ (hp : 0 < p) {n : ℕ} (hn : n < 2 ^ p) : countDown p (n + 1 : ℕ) = n := by
  unfold countDown
  rw [Nat.cast_succ, add_sub_cancel_right]
  exact (isFloat_natCast hp hn.le).roundTo_eq

theorem countDown_iterate (hp : 0 < p) {k m : ℕ} (h : k + m ≤ 2 ^ p) :
    (countDown p)^[k] (k + m : ℕ) = m := by
  induction k with
  | zero => simp
  | succ k ih =>
      rw [Function.iterate_succ_apply, show k + 1 + m = (k + m) + 1 by ring,
        countDown_succ hp (by omega)]
      exact ih (by omega)

/-- The fraction of a float stays as it is. -/
theorem IsFloat.sub_one (h : IsFloat p q) (hone : 1 ≤ q) (hq : q ≤ 2 ^ p) (hfrac : ¬ ∃ n : ℕ, q = n) :
    IsFloat p (q - 1) := by
  obtain ⟨m, e, hm, rfl⟩ := h
  have hpow : (0 : ℚ) < 2 ^ e := zpow_pos two_pos e
  have hmpos : 0 < m := by
    by_contra hle
    have : (m : ℚ) * 2 ^ e ≤ 0 :=
      mul_nonpos_of_nonpos_of_nonneg (by exact_mod_cast not_lt.mp hle) hpow.le
    linarith
  rcases le_or_gt 0 e with he | he
  · -- a whole number
    obtain ⟨k, rfl⟩ := Int.eq_ofNat_of_zero_le he
    obtain ⟨n, rfl⟩ := Int.eq_ofNat_of_zero_le hmpos.le
    exact absurd ⟨n * 2 ^ k, by push_cast; simp⟩ hfrac
  · obtain ⟨k, hk⟩ := Int.exists_eq_neg_ofNat he.le
    have hunit : (2 : ℚ) ^ k * 2 ^ e = 1 := by
      rw [hk, ← zpow_natCast, ← zpow_add₀ two_ne_zero, add_neg_cancel, zpow_zero]
    have hge : (2 : ℤ) ^ k ≤ m := by
      have : (2 : ℚ) ^ k * 2 ^ e ≤ m * 2 ^ e := hunit ▸ hone
      exact_mod_cast le_of_mul_le_mul_right this hpow
    refine ⟨m - 2 ^ k, e, ?_, ?_⟩
    · have hk0 : (0 : ℤ) < 2 ^ k := pow_pos two_pos k
      rw [abs_of_pos hmpos] at hm
      rw [abs_of_nonneg (by omega)]
      omega
    · push_cast
      rw [sub_mul, hunit]

/-- Behind `2 ^ p` the floats are even. -/
theorem IsFloat.even_of_gt (h : IsFloat p q) (hq : 2 ^ p < q) : ∃ n : ℤ, q = 2 * n := by
  obtain ⟨m, e, hm, rfl⟩ := h
  have hm' : (m : ℚ) < 2 ^ p := by exact_mod_cast (le_abs_self m).trans_lt hm
  have he : 0 < e := by
    by_contra hle
    have hpow : (2 : ℚ) ^ e ≤ 1 := zpow_le_one_of_nonpos₀ one_le_two (not_lt.mp hle)
    rcases le_or_gt 0 (m : ℚ) with hm0 | hm0
    · have := mul_le_of_le_one_right hm0 hpow
      linarith
    · have := mul_neg_of_neg_of_pos hm0 (zpow_pos two_pos e : (0 : ℚ) < 2 ^ e)
      have hpos : (0 : ℚ) < 2 ^ p := pow_pos two_pos p
      linarith
  obtain ⟨k, rfl⟩ := Int.eq_succ_of_zero_lt he
  refine ⟨m * 2 ^ k, ?_⟩
  push_cast
  rw [show (2 : ℚ) ^ ((k : ℤ) + 1) = 2 ^ k * 2 from zpow_add_one₀ two_ne_zero _]
  ring

/-- The count that starts at a number comes to 0 in `k` steps. -/
def UsedUp (p : ℕ) (q : ℚ) (k : ℕ) : Prop :=
  (countDown p)^[k] q = 0 ∧ ∀ m < k, (countDown p)^[m] q ≠ 0

/-- The unit behind `2 ^ p`. -/
theorem ulp_eq_two (hlow : 2 ^ p ≤ q) (hhigh : q < 2 ^ (p + 1)) : ulp p q = 2 := by
  have hpos : 0 < q := lt_of_lt_of_le (pow_pos two_pos p) hlow
  have hlog : Int.log 2 q = p := by
    have hle : (p : ℤ) ≤ Int.log 2 q := by
      rw [← Int.zpow_le_iff_le_log one_lt_two hpos, zpow_natCast]
      exact_mod_cast hlow
    have hlt : Int.log 2 q < (p + 1 : ℕ) := by
      rw [← Int.lt_zpow_iff_log_lt one_lt_two hpos, zpow_natCast]
      exact_mod_cast hhigh
    omega
  unfold ulp
  rw [abs_of_pos hpos, hlog, add_sub_right_comm, sub_self, zero_add, zpow_one]

theorem usedUp_zero_iff : UsedUp p q 0 ↔ q = 0 := by
  unfold UsedUp
  simp

theorem usedUp_succ_iff {k : ℕ} : UsedUp p q (k + 1) ↔ q ≠ 0 ∧ UsedUp p (countDown p q) k := by
  unfold UsedUp
  constructor
  · rintro ⟨hzero, hne⟩
    exact ⟨hne 0 (Nat.succ_pos k), hzero, fun m hm => hne (m + 1) (Nat.succ_lt_succ hm)⟩
  · rintro ⟨hq, hzero, hne⟩
    refine ⟨hzero, fun m hm => ?_⟩
    cases m with
    | zero => exact hq
    | succ m => exact hne m (Nat.lt_of_succ_lt_succ hm)

/-- The first even number behind `2 ^ p` goes back to it. -/
theorem countDown_even (hp : 2 ≤ p) : countDown p (2 ^ p + 2) = 2 ^ p := by
  obtain ⟨k, rfl⟩ := Nat.exists_eq_add_of_le' hp
  have hone : (1 : ℚ) ≤ 2 ^ (k + 1) := one_le_pow₀ one_le_two
  have hulp : ulp (k + 2) ((2 : ℚ) ^ (k + 2) + 2 - 1) = 2 :=
    ulp_eq_two (by linarith) (by rw [pow_succ _ (k + 2), pow_succ _ (k + 1)]; linarith)
  have hhalf : ((2 : ℚ) ^ (k + 2) + 2 - 1) / 2 = ((2 ^ (k + 1) : ℤ) : ℚ) + 1 / 2 := by
    push_cast
    ring
  unfold countDown roundTo
  rw [hulp, hhalf, roundEven_half (by simp [pow_succ])]
  push_cast
  ring

/-- **The next one stays**, and with it all that are greater. -/
theorem le_countDown (hp : 2 ≤ p) (hq : 2 ^ p + 4 ≤ q) : 2 ^ p + 4 ≤ countDown p q := by
  obtain ⟨k, rfl⟩ := Nat.exists_eq_add_of_le' hp
  have hone : (1 : ℚ) ≤ 2 ^ k := one_le_pow₀ one_le_two
  have hfloat : IsFloat (k + 2) ((2 : ℚ) ^ (k + 2) + 4) := by
    refine ⟨2 ^ k + 1, 2, ?_, ?_⟩
    · have hone : (1 : ℤ) ≤ 2 ^ k := one_le_pow₀ one_le_two
      rw [abs_of_nonneg (by omega), pow_add]
      omega
    · push_cast
      rw [pow_add]
      ring
  unfold countDown
  rcases le_or_gt ((2 : ℚ) ^ (k + 2) + 4) (q - 1) with hge | hlt
  · exact hfloat.le_roundTo (by omega) hge
  · -- from the middle on the next even number is nearest
    have hpow : (2 : ℚ) ^ (k + 2) = 2 ^ k * 4 := by
      rw [pow_add]
      norm_num
    have hulp : ulp (k + 2) (q - 1) = 2 := by
      refine ulp_eq_two (by linarith) ?_
      rw [pow_succ _ (k + 2)]
      linarith
    have hodd : ¬ Even ((2 : ℤ) ^ (k + 1) + 1) := by simp [parity_simps]
    unfold roundTo
    rw [hulp, roundEven_of_odd hodd]
    · push_cast
      linarith [pow_succ (2 : ℚ) (k + 1)]
    · push_cast
      linarith [pow_succ (2 : ℚ) (k + 1)]
    · push_cast
      linarith [pow_succ (2 : ℚ) (k + 1)]

/-- The floats from which a count never comes to 0. -/
structure Endless (p : ℕ) (q : ℚ) : Prop where
  isFloat : IsFloat p q
  side : q < 0 ∨ 2 ^ p + 4 ≤ q ∨ (q ≤ 2 ^ p ∧ ¬ ∃ n : ℕ, q = n)

theorem Endless.ne_zero (h : Endless p q) : q ≠ 0 := by
  rintro rfl
  rcases h.side with hneg | hbig | ⟨-, hfrac⟩
  · exact lt_irrefl 0 hneg
  · have : (0 : ℚ) < 2 ^ p := pow_pos two_pos p
    linarith
  · exact hfrac ⟨0, Nat.cast_zero.symm⟩

theorem Endless.countDown (hp : 2 ≤ p) (h : Endless p q) : Endless p (countDown p q) := by
  have hp0 : 0 < p := by omega
  refine ⟨isFloat_roundTo hp0 _, ?_⟩
  rcases h.side with hneg | hbig | ⟨hle, hfrac⟩
  · exact .inl (roundTo_neg hp0 (by linarith))
  · exact .inr (.inl (le_countDown hp hbig))
  · rcases lt_or_ge q 1 with hlt | hone
    · exact .inl (roundTo_neg hp0 (by linarith))
    · -- a fraction keeps its distance from the integers
      have hexact : Framework.countDown p q = q - 1 := (h.isFloat.sub_one hone hle hfrac).roundTo_eq
      refine .inr (.inr ⟨by rw [hexact]; linarith, ?_⟩)
      rintro ⟨n, hn⟩
      refine hfrac ⟨n + 1, ?_⟩
      rw [Nat.cast_succ, ← hn, hexact]
      ring

theorem Endless.iterate (hp : 2 ≤ p) (h : Endless p q) (k : ℕ) :
    Endless p ((Framework.countDown p)^[k] q) := by
  induction k generalizing q with
  | zero => exact h
  | succ k ih => exact ih (h.countDown hp)

/-- The floats are those of which every number is counted, the one behind them,
and those that a count does not get away from. -/
theorem IsFloat.cases (hp : 2 ≤ p) (h : IsFloat p q) :
    (∃ n : ℕ, n ≤ 2 ^ p ∧ q = n) ∨ q = 2 ^ p + 2 ∨ Endless p q := by
  rcases le_or_gt q (2 ^ p) with hle | hgt
  · by_cases hnat : ∃ n : ℕ, q = n
    · obtain ⟨n, rfl⟩ := hnat
      exact .inl ⟨n, by exact_mod_cast hle, rfl⟩
    · exact .inr (.inr ⟨h, .inr (.inr ⟨hle, hnat⟩)⟩)
  · rcases le_or_gt (2 ^ p + 4) q with hbig | hsmall
    · exact .inr (.inr ⟨h, .inr (.inl hbig)⟩)
    · -- the only even number in between
      obtain ⟨n, rfl⟩ := h.even_of_gt hgt
      obtain ⟨k, rfl⟩ := Nat.exists_eq_add_of_le' hp
      have hlow : (2 : ℤ) ^ (k + 2) < 2 * n := by exact_mod_cast hgt
      have hhigh : 2 * n < (2 : ℤ) ^ (k + 2) + 4 := by exact_mod_cast hsmall
      rw [pow_succ 2 (k + 1)] at hlow hhigh
      have hn : n = 2 ^ (k + 1) + 1 := by omega
      refine .inr (.inl ?_)
      rw [hn]
      push_cast
      ring

theorem UsedUp.unique {k k' : ℕ} (h : UsedUp p q k) (h' : UsedUp p q k') : k = k' := by
  rcases lt_trichotomy k k' with hlt | heq | hgt
  · exact absurd h.1 (h'.2 k hlt)
  · exact heq
  · exact absurd h'.1 (h.2 k' hgt)

theorem usedUp_natCast (hp : 0 < p) {n : ℕ} (hn : n ≤ 2 ^ p) : UsedUp p n n := by
  have hcount : ∀ m ≤ n, (countDown p)^[m] (n : ℚ) = (n - m : ℕ) := by
    intro m hm
    have := countDown_iterate (k := m) (m := n - m) hp (by omega)
    rwa [Nat.add_sub_cancel' hm] at this
  constructor
  · rw [hcount n le_rfl, Nat.sub_self, Nat.cast_zero]
  · intro m hm
    rw [hcount m hm.le]
    exact Nat.cast_ne_zero.mpr (Nat.sub_pos_of_lt hm).ne'

theorem usedUp_even (hp : 2 ≤ p) : UsedUp p (2 ^ p + 2) (2 ^ p + 1) := by
  have hfirst : countDown p (2 ^ p + 2) = ((2 ^ p : ℕ) : ℚ) := by
    rw [countDown_even hp]
    push_cast
    rfl
  obtain ⟨hzero, hne⟩ := usedUp_natCast (p := p) (by omega) le_rfl
  constructor
  · rw [Function.iterate_succ_apply, hfirst]
    exact hzero
  · intro m hm
    cases m with
    | zero =>
        have hpos : (0 : ℚ) < 2 ^ p := pow_pos two_pos p
        exact (add_pos hpos two_pos).ne'
    | succ m =>
        rw [Function.iterate_succ_apply, hfirst]
        exact hne m (by omega)

/-- **A COUNT COMES TO 0** just from the natural numbers up to `2 ^ p + 2`; from
this one it takes one step less. -/
theorem usedUp_iff (hp : 2 ≤ p) (h : IsFloat p q) (k : ℕ) :
    UsedUp p q k ↔ (q = k ∧ k ≤ 2 ^ p) ∨ (q = 2 ^ p + 2 ∧ k = 2 ^ p + 1) := by
  constructor
  · intro hk
    rcases h.cases hp with ⟨n, hn, rfl⟩ | rfl | hendless
    · obtain rfl := hk.unique (usedUp_natCast (by omega) hn)
      exact .inl ⟨rfl, hn⟩
    · exact .inr ⟨rfl, hk.unique (usedUp_even hp)⟩
    · exact absurd hk.1 (hendless.iterate hp k).ne_zero
  · rintro (⟨rfl, hk⟩ | ⟨rfl, rfl⟩)
    · exact usedUp_natCast (by omega) hk
    · exact usedUp_even hp

end Rounding

end Petrel.Framework
