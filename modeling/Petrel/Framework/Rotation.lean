/-
  Petrel.Framework.Rotation — dealing in turn by a counter that wraps.

  A counter of range `M` is taken modulo `n` to deal picks to `n` slots.
  Inside one round of the counter the slots come in turn; where the counter
  wraps, the turn starts again at slot 0, wherever it was.

  Main results:
    * `count_deal_of_le`   — what a slot gets inside one round.
    * `count_deal`         — what it gets in any number of rounds.
    * `count_deal_le`      — two slots differ by one and one more a round.
    * `count_deal_le_of_dvd`, `count_deal_mul` — by one only if `n ∣ M`, and
      by one a round otherwise.
-/

import Mathlib

namespace Petrel.Framework

section Rotation

variable {M n : Nat}

/-- The slots of the first `k` picks. -/
def deal (M n k : Nat) : List Nat := (List.range k).map fun j => j % M % n

@[simp] theorem deal_zero : deal M n 0 = [] := rfl

theorem deal_succ (k : Nat) : deal M n (k + 1) = deal M n k ++ [k % M % n] := by
  simp [deal, List.range_succ]

@[simp] theorem length_deal (k : Nat) : (deal M n k).length = k := by simp [deal]

/-! ## §1. One round of the counter. -/

theorem count_map_mod {w : Nat} (hw : w < n) (k : Nat) :
    ((List.range k).map (· % n)).count w = k / n + if w < k % n then 1 else 0 := by
  have hn : 0 < n := by omega
  have hcount : ((List.range k).map (· % n)).count w = Nat.count (· ≡ w [MOD n]) k := by
    rw [List.count, List.countP_map, Nat.count]
    refine List.countP_congr fun j _ => ?_
    simp [Nat.ModEq, Nat.mod_eq_of_lt hw]
  rw [hcount, Nat.count_modEq_card k hn, Nat.mod_eq_of_lt hw]

theorem deal_of_le {k : Nat} (hk : k ≤ M) : deal M n k = (List.range k).map (· % n) := by
  refine List.map_congr_left fun j hj => ?_
  rw [Nat.mod_eq_of_lt (lt_of_lt_of_le (List.mem_range.mp hj) hk)]

/-- **Inside one round** the slots come in turn. -/
theorem count_deal_of_le {w k : Nat} (hw : w < n) (hk : k ≤ M) :
    (deal M n k).count w = k / n + if w < k % n then 1 else 0 := by
  rw [deal_of_le hk, count_map_mod hw]

/-! ## §2. Any number of rounds. -/

/-- A round of the counter comes back to its start. -/
theorem deal_add (k : Nat) : deal M n (M + k) = deal M n M ++ deal M n k := by
  simp [deal, List.range_add, Function.comp_def]

theorem deal_mul_add (q k : Nat) (w : Nat) :
    (deal M n (q * M + k)).count w = q * (deal M n M).count w + (deal M n k).count w := by
  induction q with
  | zero => simp
  | succ q ih =>
      rw [show (q + 1) * M + k = M + (q * M + k) by ring, deal_add, List.count_append, ih]
      ring

/-- **What a slot gets**: its share of each full round, and of the last one. -/
theorem count_deal (k w : Nat) :
    (deal M n k).count w = k / M * (deal M n M).count w + (deal M n (k % M)).count w := by
  conv_lhs => rw [← Nat.div_add_mod' k M]
  exact deal_mul_add _ _ _

/-- Two slots differ by at most one inside a round. -/
theorem count_deal_le_succ {w w' k : Nat} (hw : w < n) (hw' : w' < n) (hk : k ≤ M) :
    (deal M n k).count w ≤ (deal M n k).count w' + 1 := by
  rw [count_deal_of_le hw hk, count_deal_of_le hw' hk]
  split <;> omega

/-- **Two slots differ by one, and by one more for each round of the counter.** -/
theorem count_deal_le {w w' : Nat} (hM : 0 < M) (hw : w < n) (hw' : w' < n) (k : Nat) :
    (deal M n k).count w ≤ (deal M n k).count w' + 1 + k / M := by
  have hround : k / M * (deal M n M).count w ≤ k / M * (deal M n M).count w' + k / M :=
    calc k / M * (deal M n M).count w
        ≤ k / M * ((deal M n M).count w' + 1) :=
          Nat.mul_le_mul_left _ (count_deal_le_succ hw hw' le_rfl)
      _ = k / M * (deal M n M).count w' + k / M := by ring
  have hlast : (deal M n (k % M)).count w ≤ (deal M n (k % M)).count w' + 1 :=
    count_deal_le_succ hw hw' (Nat.mod_lt k hM).le
  rw [count_deal k w, count_deal k w']
  omega

/-- If the slots divide the range, the wrap keeps the turn. -/
theorem count_deal_le_of_dvd {w w' : Nat} (hdvd : n ∣ M) (hw : w < n) (hw' : w' < n)
    (k : Nat) : (deal M n k).count w ≤ (deal M n k).count w' + 1 := by
  have heq : deal M n k = (List.range k).map (· % n) :=
    List.map_congr_left fun j _ => Nat.mod_mod_of_dvd j hdvd
  rw [heq, count_map_mod hw, count_map_mod hw']
  split <;> omega

/-- Otherwise slot 0 gets one pick more than the last slot in each round. -/
theorem count_deal_mul (hn : 0 < n) (hdvd : ¬ n ∣ M) (q : Nat) :
    (deal M n (q * M)).count 0 = (deal M n (q * M)).count (n - 1) + q := by
  have hmod : 0 < M % n := Nat.pos_of_ne_zero fun h => hdvd (Nat.dvd_of_mod_eq_zero h)
  have hlt : M % n < n := Nat.mod_lt M hn
  have hfirst : (deal M n M).count 0 = M / n + 1 := by
    rw [count_deal_of_le hn le_rfl, if_pos hmod]
  have hlast : (deal M n M).count (n - 1) = M / n := by
    rw [count_deal_of_le (by omega) le_rfl, if_neg (by omega), Nat.add_zero]
  have h0 := deal_mul_add (M := M) (n := n) q 0 0
  have h1 := deal_mul_add (M := M) (n := n) q 0 (n - 1)
  simp only [Nat.add_zero, deal_zero, List.count_nil] at h0 h1
  rw [h0, h1, hfirst, hlast]
  ring

end Rotation

end Petrel.Framework
