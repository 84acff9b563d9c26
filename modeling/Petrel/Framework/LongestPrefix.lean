/-
  Petrel.Framework.LongestPrefix — longest-prefix lookup in partial maps.

  A partial map `f : List α → Option β` assigns values to finitely or
  infinitely many words.  `longest f p` is the value at the longest prefix
  of `p` that `f` defines.  The recursion reads `p` from the left and
  differentiates the map by each letter, which is the shape in which a trie
  walk computes it.

  Main results:
    * `longest_eq_none_iff` — no value exactly if no prefix is defined.
    * `longest_of_isLongest` — at the longest defined prefix, its value.
    * `exists_isLongest`    — a defined prefix yields a longest one.
    * `longest_congr`       — only the defined prefixes of a word count.
-/

import Mathlib

namespace Petrel.Framework

variable {α β : Type*}

/-- `q` is the longest word of `S` that is a prefix of `p`. -/
structure IsLongest (S : Set (List α)) (p q : List α) : Prop where
  mem : q ∈ S
  isPrefix : q <+: p
  max : ∀ r ∈ S, r <+: p → r.length ≤ q.length

/-- The words that a partial map defines. -/
def defined (f : List α → Option β) : Set (List α) := {q | f q ≠ none}

/-- The derivative of a partial map by a letter. -/
def deriv (f : List α → Option β) (c : α) : List α → Option β := fun q => f (c :: q)

/-- The value at the longest prefix of the word that the map defines. -/
def longest (f : List α → Option β) : List α → Option β
  | [] => f []
  | c :: p => (longest (deriv f c) p).or (f [])

theorem longest_eq_none_iff (p : List α) :
    ∀ f : List α → Option β, longest f p = none ↔ ∀ q, q <+: p → f q = none := by
  induction p with
  | nil =>
      intro f
      simp [longest, List.prefix_nil]
  | cons c p ih =>
      intro f
      rw [longest, Option.or_eq_none_iff, ih (deriv f c)]
      constructor
      · rintro ⟨hd, h0⟩ q hq
        rcases List.prefix_cons_iff.mp hq with rfl | ⟨q', rfl, hq'⟩
        · exact h0
        · exact hd q' hq'
      · intro h
        exact ⟨fun q hq => h (c :: q) (List.cons_prefix_cons.mpr ⟨rfl, hq⟩),
          h [] List.nil_prefix⟩

/-- Below its first letter a non-empty longest prefix stays longest. -/
theorem IsLongest.tail {f : List α → Option β} {c : α} {p q : List α}
    (h : IsLongest (defined f) (c :: p) (c :: q)) :
    IsLongest (defined (deriv f c)) p q where
  mem := h.mem
  isPrefix := (List.cons_prefix_cons.mp h.isPrefix).2
  max := fun r hr hrp => by
    have := h.max (c :: r) hr (List.cons_prefix_cons.mpr ⟨rfl, hrp⟩)
    simpa using this

/-- **The lookup returns the value at the longest defined prefix.** -/
theorem longest_of_isLongest (p : List α) :
    ∀ (f : List α → Option β) (q : List α),
      IsLongest (defined f) p q → longest f p = f q := by
  induction p with
  | nil =>
      intro f q h
      rw [List.prefix_nil.mp h.isPrefix]
      rfl
  | cons c p ih =>
      intro f q h
      rw [longest]
      rcases List.prefix_cons_iff.mp h.isPrefix with rfl | ⟨q', rfl, -⟩
      · -- the empty word is longest, so no longer prefix is defined
        have hnone : longest (deriv f c) p = none := by
          rw [longest_eq_none_iff]
          intro r hr
          by_contra hdef
          have := h.max (c :: r) hdef (List.cons_prefix_cons.mpr ⟨rfl, hr⟩)
          simp at this
        rw [hnone, Option.none_or]
      · rw [ih (deriv f c) q' h.tail]
        exact Option.or_of_isSome (Option.isSome_iff_ne_none.mpr h.mem)

/-- A prefix in `S` yields a longest one. -/
theorem exists_isLongest {S : Set (List α)} {p q : List α} (hq : q ∈ S) (hqp : q <+: p) :
    ∃ r, IsLongest S p r := by
  classical
  let cands := p.inits.filter (fun r => decide (r ∈ S))
  have hmem : ∀ r, r ∈ cands ↔ r ∈ S ∧ r <+: p := by
    intro r
    simp [cands, List.mem_inits, and_comm]
  obtain ⟨r, hr, hmax⟩ := Finset.exists_max_image cands.toFinset List.length
    ⟨q, by simp [hmem, hq, hqp]⟩
  rw [List.mem_toFinset, hmem] at hr
  exact ⟨r, hr.1, hr.2, fun t ht htp => hmax t (by simp [hmem, ht, htp])⟩

/-- **Words with the same defined prefixes have the same value.** -/
theorem longest_congr {f : List α → Option β} {p p' : List α}
    (h : ∀ q ∈ defined f, q <+: p ↔ q <+: p') : longest f p = longest f p' := by
  by_cases hex : ∃ q ∈ defined f, q <+: p
  · obtain ⟨q, hq, hqp⟩ := hex
    obtain ⟨r, hr⟩ := exists_isLongest hq hqp
    have hr' : IsLongest (defined f) p' r :=
      ⟨hr.mem, (h r hr.mem).mp hr.isPrefix, fun t ht htp => hr.max t ht ((h t ht).mpr htp)⟩
    rw [longest_of_isLongest p f r hr, longest_of_isLongest p' f r hr']
  · push Not at hex
    have hnone : longest f p = none := by
      rw [longest_eq_none_iff]
      intro q hq
      by_contra hdef
      exact hex q hdef hq
    have hnone' : longest f p' = none := by
      rw [longest_eq_none_iff]
      intro q hq
      by_contra hdef
      exact hex q hdef ((h q hdef).mpr hq)
    rw [hnone, hnone']

end Petrel.Framework
