/-
  Petrel.Framework.Inventory — tokens in lists at places.

  An inventory stores at every place a list of tokens.  It is EXCLUSIVE if
  no token is stored twice, at one place or at two.  Four things happen to an
  inventory: its lists are reordered, tokens move from one place to another,
  a new token is stored, or tokens are dropped.  Each is described by
  permutations, so that a concrete step has to show only which list loses
  and which list gains what.

  Main results:
    * `Exclusive.move`, `Exclusive.store`, `Exclusive.drop` — no token is
      ever stored twice.
    * `has_move`, `has_store` — which tokens are stored after a step.
-/

import Mathlib

namespace Petrel.Framework

open scoped List

/-- The tokens at each place. -/
abbrev Inventory (τ π : Type*) := π → List τ

namespace Inventory

variable {τ π : Type*} {S S' : Inventory τ π} {p q : π} {x : τ} {xs : List τ}

/-- No token is stored twice. -/
structure Exclusive (S : Inventory τ π) : Prop where
  once : ∀ p, (S p).Nodup
  apart : ∀ {x p q}, x ∈ S p → x ∈ S q → p = q

/-- The token is stored somewhere. -/
def Has (S : Inventory τ π) (x : τ) : Prop := ∃ p, x ∈ S p

/-! ## §1. Reordering. -/

theorem Exclusive.reorder (h : S.Exclusive) (hperm : ∀ r, S' r ~ S r) : S'.Exclusive where
  once r := (hperm r).nodup_iff.mpr (h.once r)
  apart hp hq := h.apart ((hperm _).mem_iff.mp hp) ((hperm _).mem_iff.mp hq)

theorem has_reorder (hperm : ∀ r, S' r ~ S r) : S'.Has x ↔ S.Has x :=
  exists_congr (fun r => (hperm r).mem_iff)

/-! ## §2. Dropping. -/

/-- The place `p` loses the tokens `xs`. -/
theorem Exclusive.drop (h : S.Exclusive) (hp : S p ~ xs ++ S' p)
    (hother : ∀ r, r ≠ p → S' r ~ S r) : S'.Exclusive := by
  have hsub : ∀ r y, y ∈ S' r → y ∈ S r := by
    intro r y hy
    by_cases hr : r = p
    · subst hr
      exact hp.mem_iff.mpr (List.mem_append_right _ hy)
    · exact (hother r hr).mem_iff.mp hy
  refine ⟨?_, fun hp hq => h.apart (hsub _ _ hp) (hsub _ _ hq)⟩
  intro r
  by_cases hr : r = p
  · subst hr
    exact (List.nodup_append.mp (hp.nodup_iff.mp (h.once r))).2.1
  · exact (hother r hr).nodup_iff.mpr (h.once r)

theorem Has.of_drop (hp : S p ~ xs ++ S' p) (hother : ∀ r, r ≠ p → S' r ~ S r) (h : S'.Has x) :
    S.Has x := by
  obtain ⟨r, hr⟩ := h
  by_cases hrp : r = p
  · subst hrp
    exact ⟨r, hp.mem_iff.mpr (List.mem_append_right _ hr)⟩
  · exact ⟨r, (hother r hrp).mem_iff.mp hr⟩

/-! ## §3. Moving. -/

/-- The tokens `xs` move from `p` to `q`. -/
theorem Exclusive.move (h : S.Exclusive) (hpq : p ≠ q) (hp : S p ~ xs ++ S' p)
    (hq : S' q ~ xs ++ S q) (hother : ∀ r, r ≠ p → r ≠ q → S' r ~ S r) : S'.Exclusive := by
  obtain ⟨hxs, hrest, hdisj⟩ := List.nodup_append.mp (hp.nodup_iff.mp (h.once p))
  have hfrom : ∀ y, y ∈ xs → y ∈ S p := fun y hy => hp.mem_iff.mpr (List.mem_append_left _ hy)
  -- what has moved is at `q` alone, everything else is where it was
  have hmoved : ∀ y r, y ∈ xs → y ∈ S' r → r = q := by
    intro y r hy hr
    by_contra hrq
    by_cases hrp : r = p
    · subst hrp
      exact hdisj y hy y hr rfl
    · exact hrp (h.apart ((hother r hrp hrq).mem_iff.mp hr) (hfrom y hy))
  have hstayed : ∀ y r, y ∉ xs → y ∈ S' r → y ∈ S r := by
    intro y r hy hr
    by_cases hrq : r = q
    · subst hrq
      exact (List.mem_append.mp (hq.mem_iff.mp hr)).resolve_left hy
    · by_cases hrp : r = p
      · subst hrp
        exact hp.mem_iff.mpr (List.mem_append_right _ hr)
      · exact (hother r hrp hrq).mem_iff.mp hr
  refine ⟨?_, ?_⟩
  · intro r
    by_cases hrq : r = q
    · subst hrq
      refine hq.nodup_iff.mpr (List.nodup_append.mpr ⟨hxs, h.once r, ?_⟩)
      intro y hy z hz hyz
      subst hyz
      exact hpq (h.apart (hfrom y hy) hz)
    · by_cases hrp : r = p
      · subst hrp
        exact hrest
      · exact (hother r hrp hrq).nodup_iff.mpr (h.once r)
  · intro y r r' hr hr'
    by_cases hy : y ∈ xs
    · rw [hmoved y r hy hr, hmoved y r' hy hr']
    · exact h.apart (hstayed y r hy hr) (hstayed y r' hy hr')

theorem has_move (hp : S p ~ xs ++ S' p) (hq : S' q ~ xs ++ S q)
    (hother : ∀ r, r ≠ p → r ≠ q → S' r ~ S r) : S'.Has x ↔ S.Has x := by
  constructor
  · intro h
    obtain ⟨r, hr⟩ := h
    by_cases hrq : r = q
    · subst hrq
      rcases List.mem_append.mp (hq.mem_iff.mp hr) with hx | hx
      · exact ⟨p, hp.mem_iff.mpr (List.mem_append_left _ hx)⟩
      · exact ⟨r, hx⟩
    · by_cases hrp : r = p
      · subst hrp
        exact ⟨r, hp.mem_iff.mpr (List.mem_append_right _ hr)⟩
      · exact ⟨r, (hother r hrp hrq).mem_iff.mp hr⟩
  · intro h
    obtain ⟨r, hr⟩ := h
    by_cases hrq : r = q
    · subst hrq
      exact ⟨r, hq.mem_iff.mpr (List.mem_append_right _ hr)⟩
    · by_cases hrp : r = p
      · subst hrp
        rcases List.mem_append.mp (hp.mem_iff.mp hr) with hx | hx
        · exact ⟨q, hq.mem_iff.mpr (List.mem_append_left _ hx)⟩
        · exact ⟨r, hx⟩
      · exact ⟨r, (hother r hrp hrq).mem_iff.mpr hr⟩

/-! ## §4. Storing. -/

/-- The new token `x` is stored at `q`. -/
theorem Exclusive.store (h : S.Exclusive) (hx : ¬ S.Has x) (hq : S' q ~ x :: S q)
    (hother : ∀ r, r ≠ q → S' r ~ S r) : S'.Exclusive := by
  have hnew : ∀ r, x ∈ S' r → r = q := by
    intro r hr
    by_contra hrq
    exact hx ⟨r, (hother r hrq).mem_iff.mp hr⟩
  have hold : ∀ y r, y ≠ x → y ∈ S' r → y ∈ S r := by
    intro y r hy hr
    by_cases hrq : r = q
    · subst hrq
      exact (List.mem_cons.mp (hq.mem_iff.mp hr)).resolve_left hy
    · exact (hother r hrq).mem_iff.mp hr
  refine ⟨?_, ?_⟩
  · intro r
    by_cases hrq : r = q
    · subst hrq
      exact hq.nodup_iff.mpr (List.nodup_cons.mpr ⟨fun hr => hx ⟨r, hr⟩, h.once r⟩)
    · exact (hother r hrq).nodup_iff.mpr (h.once r)
  · intro y r r' hr hr'
    by_cases hy : y = x
    · subst hy
      rw [hnew r hr, hnew r' hr']
    · exact h.apart (hold y r hy hr) (hold y r' hy hr')

theorem has_store (hq : S' q ~ x :: S q) (hother : ∀ r, r ≠ q → S' r ~ S r) {y : τ} :
    S'.Has y ↔ y = x ∨ S.Has y := by
  constructor
  · intro h
    obtain ⟨r, hr⟩ := h
    by_cases hrq : r = q
    · subst hrq
      exact (List.mem_cons.mp (hq.mem_iff.mp hr)).imp_right (fun hy => ⟨r, hy⟩)
    · exact .inr ⟨r, (hother r hrq).mem_iff.mp hr⟩
  · intro h
    rcases h with rfl | ⟨r, hr⟩
    · exact ⟨q, hq.mem_iff.mpr (List.mem_cons_self ..)⟩
    · by_cases hrq : r = q
      · subst hrq
        exact ⟨r, hq.mem_iff.mpr (List.mem_cons_of_mem _ hr)⟩
      · exact ⟨r, (hother r hrq).mem_iff.mpr hr⟩

end Inventory

end Petrel.Framework
