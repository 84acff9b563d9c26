/-
  Petrel.Framework.Ewma — exponentially weighted moving averages.

  An average moves a share `α` of the way to each new sample.  It is affine in
  its old value, whose weight shrinks by `1 - α` with each sample: what was
  before a window of `n` samples counts `(1 - α) ^ n`, and the samples of the
  window count the rest.

  Main results:
    * `ewmas_eq`     — the weight of the old value.
    * `ewmas_window` — bounds by the samples of a window.
    * `ewmas_mem`    — an average stays among its samples.
-/

import Mathlib

namespace Petrel.Framework

section Ewma

variable {K : Type*} [Field K]

/-- The average `x` after the sample `c`. -/
def ewma (α x c : K) : K := x * (1 - α) + c * α

/-- The average after some samples. -/
def ewmas (α x : K) (cs : List K) : K := cs.foldl (ewma α) x

@[simp] theorem ewmas_nil (α x : K) : ewmas α x [] = x := rfl

@[simp] theorem ewmas_cons (α x c : K) (cs : List K) :
    ewmas α x (c :: cs) = ewmas α (ewma α x c) cs := rfl

theorem ewmas_append (α x : K) (cs ds : List K) :
    ewmas α x (cs ++ ds) = ewmas α (ewmas α x cs) ds := List.foldl_append

/-- **The weight of the old value.** -/
theorem ewmas_eq (α x : K) (cs : List K) :
    ewmas α x cs = (1 - α) ^ cs.length * x + ewmas α 0 cs := by
  induction cs using List.reverseRecOn with
  | nil => simp
  | append_singleton cs c ih =>
      rw [ewmas_append, ewmas_append, ih]
      simp only [ewmas_cons, ewmas_nil, ewma, List.length_append, List.length_singleton]
      ring

/-- A constant sample is approached. -/
theorem ewmas_replicate (α x c : K) (n : Nat) :
    ewmas α x (List.replicate n c) = c + (1 - α) ^ n * (x - c) := by
  induction n with
  | zero => simp
  | succ n ih =>
      rw [List.replicate_succ', ewmas_append, ih]
      simp only [ewmas_cons, ewmas_nil, ewma]
      ring

variable [LinearOrder K] [IsStrictOrderedRing K] {α : K}

theorem ewma_mono (h0 : 0 ≤ α) (h1 : α ≤ 1) {x y c d : K} (hx : x ≤ y) (hc : c ≤ d) :
    ewma α x c ≤ ewma α y d := by
  have hold : x * (1 - α) ≤ y * (1 - α) := mul_le_mul_of_nonneg_right hx (sub_nonneg.mpr h1)
  have hnew : c * α ≤ d * α := mul_le_mul_of_nonneg_right hc h0
  exact add_le_add hold hnew

/-- **Greater samples make a greater average.** -/
theorem ewmas_mono (h0 : 0 ≤ α) (h1 : α ≤ 1) {x y : K} {cs ds : List K} (hx : x ≤ y)
    (hcs : List.Forall₂ (· ≤ ·) cs ds) : ewmas α x cs ≤ ewmas α y ds := by
  induction hcs generalizing x y with
  | nil => exact hx
  | cons hc _ ih => exact ih (ewma_mono h0 h1 hx hc)

/-- **What a window says.**  The average is that of a constant sample between
the bounds of the window, but for the weight of the old value. -/
theorem ewmas_window (h0 : 0 ≤ α) (h1 : α ≤ 1) (x : K) {lo hi : K} {cs : List K}
    (hcs : ∀ c ∈ cs, lo ≤ c ∧ c ≤ hi) :
    lo + (1 - α) ^ cs.length * (x - lo) ≤ ewmas α x cs ∧
      ewmas α x cs ≤ hi + (1 - α) ^ cs.length * (x - hi) := by
  have hlow : List.Forall₂ (· ≤ ·) (List.replicate cs.length lo) cs := by
    rw [List.forall₂_iff_get]
    exact ⟨List.length_replicate, fun i _ h => by simpa using (hcs _ (List.get_mem cs ⟨i, h⟩)).1⟩
  have hhigh : List.Forall₂ (· ≤ ·) cs (List.replicate cs.length hi) := by
    rw [List.forall₂_iff_get]
    exact ⟨List.length_replicate.symm, fun i h _ => by simpa using (hcs _ (List.get_mem cs ⟨i, h⟩)).2⟩
  rw [← ewmas_replicate, ← ewmas_replicate]
  exact ⟨ewmas_mono h0 h1 le_rfl hlow, ewmas_mono h0 h1 le_rfl hhigh⟩

/-- **An average stays among its samples.** -/
theorem ewmas_mem (h0 : 0 ≤ α) (h1 : α ≤ 1) {x lo hi : K} (hx : lo ≤ x ∧ x ≤ hi) {cs : List K}
    (hcs : ∀ c ∈ cs, lo ≤ c ∧ c ≤ hi) : lo ≤ ewmas α x cs ∧ ewmas α x cs ≤ hi := by
  obtain ⟨hlow, hhigh⟩ := ewmas_window h0 h1 x hcs
  have hweight : 0 ≤ (1 - α) ^ cs.length := pow_nonneg (sub_nonneg.mpr h1) _
  constructor
  · exact le_trans (le_add_of_nonneg_right (mul_nonneg hweight (sub_nonneg.mpr hx.1))) hlow
  · exact le_trans hhigh
      (add_le_of_nonpos_right (mul_nonpos_of_nonneg_of_nonpos hweight (sub_nonpos.mpr hx.2)))

end Ewma

end Petrel.Framework
