/-
  Petrel.Framework.Bits — numbers as strings of bits.

  `bits w n` are the `w` low bits of a number, the most significant first.
  A list of digits of width `w` is the string of their bits, so that two
  lists of digits of different widths can be compared, and regrouping digits
  is a statement about one string.

  Main results:
    * `bits_append`        — the bits of a number in two parts.
    * `flatMap_bits_inj`   — digits are determined by their bits.
-/

import Mathlib

namespace Petrel.Framework

/-! ## §1. The bits of a number. -/

/-- The `w` low bits of a number, the most significant first. -/
def bits : Nat → Nat → List Bool
  | 0, _ => []
  | w + 1, n => n.testBit w :: bits w n

@[simp] theorem length_bits (w n : Nat) : (bits w n).length = w := by
  induction w with
  | zero => rfl
  | succ w ih => rw [bits, List.length_cons, ih]

/-- Bits are determined one by one. -/
theorem bits_congr {w m n : Nat} (h : ∀ i, i < w → m.testBit i = n.testBit i) : bits w m = bits w n := by
  induction w with
  | zero => rfl
  | succ w ih =>
      have htop : m.testBit w = n.testBit w := h w (by omega)
      rw [bits, bits, htop, ih (fun i hi => h i (by omega))]

theorem testBit_of_bits_eq {w m n : Nat} (h : bits w m = bits w n) :
    ∀ i, i < w → m.testBit i = n.testBit i := by
  induction w with
  | zero => intro i hi; omega
  | succ w ih =>
      obtain ⟨htop, hlow⟩ := List.cons.inj h
      intro i hi
      by_cases hw : i = w
      · rw [hw]
        exact htop
      · exact ih hlow i (by omega)

/-- **A number in two parts**: the high bits are those of the upper part, the
low bits those of the lower part. -/
theorem bits_append (v w a b : Nat) (hb : b < 2 ^ w) :
    bits (v + w) (2 ^ w * a + b) = bits v a ++ bits w b := by
  induction v with
  | zero =>
      rw [Nat.zero_add, bits, List.nil_append]
      refine bits_congr ?_
      intro i hi
      rw [Nat.testBit_two_pow_mul_add a hb, if_pos hi]
  | succ v ih =>
      have hwidth : v + 1 + w = v + w + 1 := by omega
      have hhigh : ¬ v + w < w := by omega
      have htop : (2 ^ w * a + b).testBit (v + w) = a.testBit v := by
        rw [Nat.testBit_two_pow_mul_add a hb, if_neg hhigh, Nat.add_sub_cancel]
      rw [hwidth, bits, bits, htop, ih, List.cons_append]

/-- The bits of a number below `w` do not depend on what is above. -/
theorem bits_mod (w n : Nat) : bits w (n % 2 ^ w) = bits w n := by
  refine bits_congr ?_
  intro i hi
  rw [Nat.testBit_mod_two_pow, decide_eq_true hi, Bool.true_and]

/-- **The bits of a number in two parts**, the upper one by division. -/
theorem bits_split (v w n : Nat) : bits (v + w) n = bits v (n / 2 ^ w) ++ bits w n := by
  have hlow : n % 2 ^ w < 2 ^ w := Nat.mod_lt _ (Nat.two_pow_pos w)
  have h := bits_append v w (n / 2 ^ w) (n % 2 ^ w) hlow
  rw [Nat.div_add_mod, bits_mod] at h
  exact h

theorem bits_zero (w : Nat) : bits w 0 = List.replicate w false := by
  induction w with
  | zero => rfl
  | succ w ih => rw [bits, Nat.zero_testBit, ih, List.replicate_succ]

/-- A number of `w` bits is determined by them. -/
theorem bits_inj {w m n : Nat} (hm : m < 2 ^ w) (hn : n < 2 ^ w) (h : bits w m = bits w n) : m = n := by
  refine Nat.eq_of_testBit_eq ?_
  intro i
  by_cases hi : i < w
  · exact testBit_of_bits_eq h i hi
  · have hpow : 2 ^ w ≤ 2 ^ i := Nat.pow_le_pow_right (by omega) (by omega)
    rw [Nat.testBit_lt_two_pow (by omega), Nat.testBit_lt_two_pow (by omega)]

/-! ## §2. The bits of a list of digits. -/

theorem length_flatMap_bits (w : Nat) (ds : List Nat) : (ds.flatMap (bits w)).length = w * ds.length := by
  induction ds with
  | nil => rfl
  | cons d ds ih =>
      rw [List.flatMap_cons, List.length_append, length_bits, ih, List.length_cons]
      ring

theorem flatMap_bits_replicate (w n : Nat) :
    (List.replicate n 0).flatMap (bits w) = List.replicate (w * n) false := by
  induction n with
  | zero => rfl
  | succ n ih =>
      have hlen : w * (n + 1) = w + w * n := by ring
      rw [List.replicate_succ, List.flatMap_cons, ih, bits_zero, hlen, List.replicate_add]

/-- **Digits of one width are determined by their bits.** -/
theorem flatMap_bits_inj {w : Nat} (hw : 0 < w) {ds es : List Nat} (hd : ∀ d ∈ ds, d < 2 ^ w)
    (he : ∀ e ∈ es, e < 2 ^ w) (h : ds.flatMap (bits w) = es.flatMap (bits w)) : ds = es := by
  induction ds generalizing es with
  | nil =>
      have hlen := congrArg List.length h
      rw [length_flatMap_bits, length_flatMap_bits, List.length_nil, Nat.mul_zero] at hlen
      have hnil : es.length = 0 := (Nat.mul_eq_zero.mp hlen.symm).resolve_left (by omega)
      exact (List.length_eq_zero_iff.mp hnil).symm
  | cons d ds ih =>
      cases es with
      | nil =>
          have hlen := congrArg List.length h
          rw [length_flatMap_bits, length_flatMap_bits, List.length_nil, Nat.mul_zero,
            List.length_cons, Nat.mul_succ] at hlen
          omega
      | cons e es =>
          rw [List.flatMap_cons, List.flatMap_cons] at h
          obtain ⟨hhead, htail⟩ := List.append_inj h (by rw [length_bits, length_bits])
          have hde : d = e := bits_inj (hd d (List.mem_cons_self ..)) (he e (List.mem_cons_self ..)) hhead
          rw [hde, ih (fun x hx => hd x (List.mem_cons_of_mem _ hx))
            (fun x hx => he x (List.mem_cons_of_mem _ hx)) htail]

end Petrel.Framework
