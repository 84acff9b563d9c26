/-
  Petrel.Framework.Pieces — a word cut at the occurrences of another one.

  The pieces of a word are what stands between the occurrences of a separator,
  which are taken from the left and do not overlap.  They are given by a
  relation: each piece ends at the first occurrence in the rest of the word.

  Main results:
    * `firstOccurrence_cut`, `firstOccurrence_eq_some` — the search finds the
      first occurrence.
    * `exists_pieces`      — every word has its pieces.
    * `Pieces.intercalate` — they are the word, with the separator in between.
    * `Pieces.free`        — and none of them has the separator.
-/

import Mathlib

namespace Petrel.Framework

variable {α : Type*}

/-! ## §1. The first occurrence. -/

/-- No occurrence of `p` in `a ++ p ++ rest` begins before the one behind `a`. -/
def FirstCut (p a rest : List α) : Prop := ∀ i < a.length, ¬ p <+: (a ++ p ++ rest).drop i

/-- The position of the first occurrence of a word. -/
def firstOccurrence [DecidableEq α] (p : List α) : List α → Option Nat
  | [] => if p = [] then some 0 else none
  | c :: s => if p <+: c :: s then some 0 else (firstOccurrence p s).map (· + 1)

theorem FirstCut.tail {p a rest : List α} {c : α} (h : FirstCut p (c :: a) rest) :
    FirstCut p a rest := fun i hi => h (i + 1) (by simpa using hi)

section Search

variable [DecidableEq α]

theorem firstOccurrence_prefix {p s : List α} (h : p <+: s) : firstOccurrence p s = some 0 := by
  cases s with
  | nil => exact if_pos (List.prefix_nil.mp h)
  | cons c s => exact if_pos h

/-- **The first occurrence is found.** -/
theorem firstOccurrence_cut {p a rest : List α} (h : FirstCut p a rest) :
    firstOccurrence p (a ++ p ++ rest) = some a.length := by
  induction a with
  | nil => exact firstOccurrence_prefix (List.prefix_append p rest)
  | cons c a ih =>
      have hfirst : ¬ p <+: c :: (a ++ p ++ rest) := h 0 (Nat.succ_pos _)
      rw [List.cons_append, List.cons_append, firstOccurrence, if_neg hfirst, ih h.tail]
      rfl

theorem firstOccurrence_eq_none_iff {p s : List α} : firstOccurrence p s = none ↔ ¬ p <:+: s := by
  induction s with
  | nil =>
      rw [firstOccurrence, List.infix_nil]
      by_cases hp : p = []
      · simp [hp]
      · simp [hp]
  | cons c s ih =>
      rw [firstOccurrence, List.infix_cons_iff]
      by_cases hpre : p <+: c :: s
      · simp [hpre]
      · simp [hpre, ih]

/-- What is found is the first occurrence. -/
theorem firstOccurrence_eq_some {p s : List α} {i : Nat} (h : firstOccurrence p s = some i) :
    ∃ a rest, s = a ++ p ++ rest ∧ FirstCut p a rest ∧ a.length = i := by
  induction s generalizing i with
  | nil =>
      by_cases hp : p = []
      · subst hp
        obtain rfl := Option.some.inj h
        exact ⟨[], [], rfl, fun i hi => absurd hi (Nat.not_lt_zero i), rfl⟩
      · rw [firstOccurrence, if_neg hp] at h
        exact nomatch h
  | cons c s ih =>
      by_cases hpre : p <+: c :: s
      · obtain ⟨rest, hrest⟩ := hpre
        rw [firstOccurrence, if_pos ⟨rest, hrest⟩] at h
        obtain rfl := Option.some.inj h
        exact ⟨[], rest, hrest.symm, fun i hi => absurd hi (Nat.not_lt_zero i), rfl⟩
      · rw [firstOccurrence, if_neg hpre] at h
        obtain ⟨j, hj, rfl⟩ := Option.map_eq_some_iff.mp h
        obtain ⟨a, rest, rfl, hcut, rfl⟩ := ih hj
        refine ⟨c :: a, rest, rfl, fun i hi => ?_, rfl⟩
        cases i with
        | zero => exact hpre
        | succ i => exact hcut i (Nat.lt_of_succ_lt_succ hi)

end Search

/-! ## §2. The pieces. -/

/-- The pieces of a word between the occurrences of a separator. -/
inductive Pieces (p : List α) : List α → List (List α) → Prop where
  | last {s : List α} : ¬ p <:+: s → Pieces p s [s]
  | cut {a rest : List α} {ps : List (List α)} :
      FirstCut p a rest → Pieces p rest ps → Pieces p (a ++ p ++ rest) (a :: ps)

/-- **Every word has its pieces**: the rest behind an occurrence is shorter. -/
theorem exists_pieces {p : List α} (hp : p ≠ []) (s : List α) : ∃ ps, Pieces p s ps := by
  classical
  induction hn : s.length using Nat.strong_induction_on generalizing s with
  | _ n ih =>
      subst hn
      by_cases hinfix : p <:+: s
      · cases hfound : firstOccurrence p s with
        | none => exact absurd hinfix (firstOccurrence_eq_none_iff.mp hfound)
        | some i =>
            obtain ⟨a, rest, rfl, hcut, -⟩ := firstOccurrence_eq_some hfound
            have hshorter : rest.length < (a ++ p ++ rest).length := by
              have := List.length_pos_of_ne_nil hp
              simp only [List.length_append]
              omega
            obtain ⟨ps, hps⟩ := ih rest.length hshorter rest rfl
            exact ⟨a :: ps, .cut hcut hps⟩
      · exact ⟨[s], .last hinfix⟩

theorem Pieces.ne_nil {p s : List α} {ps : List (List α)} (h : Pieces p s ps) : ps ≠ [] := by
  cases h with
  | last => exact List.cons_ne_nil _ _
  | cut => exact List.cons_ne_nil _ _

/-- **The pieces are the word**, with the separator between them. -/
theorem Pieces.intercalate {p s : List α} {ps : List (List α)} (h : Pieces p s ps) :
    p.intercalate ps = s := by
  induction h with
  | last => exact List.intercalate_singleton
  | cut _ hps ih => rw [List.intercalate_cons_of_ne_nil hps.ne_nil, ih]

/-- **No piece has the separator.** -/
theorem Pieces.free {p s : List α} (hp : p ≠ []) {ps : List (List α)} (h : Pieces p s ps) :
    ∀ q ∈ ps, ¬ p <:+: q := by
  induction h with
  | last hs =>
      intro q hq
      rw [List.mem_singleton.mp hq]
      exact hs
  | @cut a rest ps hcut hps ih =>
      intro q hq
      rcases List.mem_cons.mp hq with rfl | hq
      · -- an occurrence inside of the piece would be an earlier one
        rintro ⟨b, c, rfl⟩
        have := List.length_pos_of_ne_nil hp
        refine hcut b.length (by simp only [List.length_append]; omega) ?_
        simp
      · exact ih q hq

end Petrel.Framework
