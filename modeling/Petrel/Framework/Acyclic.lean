/-
  Petrel.Framework.Acyclic — descent in a graph without cycles.

  A search that goes down every edge of a graph comes to an end if the node it
  begins at is accessible.  In a graph with finitely many nodes that have an
  edge, these are the nodes from which no cycle is reached.

  Main results:
    * `acyclic_of_acc`  — no cycle is reached from an accessible node.
    * `acc_iff_acyclic` — the accessible nodes of such a graph.
-/

import Mathlib

namespace Petrel.Framework

open Relation

variable {α : Type*} {r : α → α → Prop}

/-- Whatever is reached from an accessible node is accessible. -/
theorem acc_of_reach {x y : α} (h : Acc (Function.swap r) x) (hxy : ReflTransGen r x y) :
    Acc (Function.swap r) y := by
  induction hxy with
  | refl => exact h
  | tail _ hyz ih => exact ih.inv hyz

theorem not_rel_self_of_acc {s : α → α → Prop} {x : α} (h : Acc s x) : ¬ s x x := by
  induction h with
  | intro x _ ih => exact fun hx => ih x hx hx

/-- **No cycle is reached** from an accessible node. -/
theorem acyclic_of_acc {x y : α} (h : Acc (Function.swap r) x) (hxy : ReflTransGen r x y) :
    ¬ TransGen r y y := by
  intro hcycle
  exact not_rel_self_of_acc (acc_of_reach h hxy).transGen (transGen_swap.mpr hcycle)

/-- **Accessible nodes** of a graph with finitely many nodes that have an edge. -/
theorem acc_iff_acyclic (hfinite : {x | ∃ y, r x y}.Finite) (x : α) :
    Acc (Function.swap r) x ↔ ∀ y, ReflTransGen r x y → ¬ TransGen r y y := by
  constructor
  · exact fun h y hxy => acyclic_of_acc h hxy
  · intro hacyclic
    by_contra hacc
    obtain ⟨chain, hstart, hchain⟩ := not_acc_iff_exists_descending_chain.mp hacc
    -- an endless chain passes a node twice
    have := hfinite.to_subtype
    obtain ⟨i, j, hne, heq⟩ := Finite.exists_ne_map_eq_of_infinite
      (fun n => (⟨chain n, chain (n + 1), hchain n⟩ : {x | ∃ y, r x y}))
    have hsame : chain i = chain j := congrArg Subtype.val heq
    have hreach : ∀ n, ReflTransGen r x (chain n) := fun n =>
      hstart ▸ Nat.rel_of_forall_rel_succ_of_le (ReflTransGen r)
        (fun m => ReflTransGen.single (hchain m)) (Nat.zero_le n)
    have hcycle : ∀ {m n}, m < n → TransGen r (chain m) (chain n) := fun hlt =>
      Nat.rel_of_forall_rel_succ_of_lt (TransGen r) (fun m => TransGen.single (hchain m)) hlt
    rcases Nat.lt_or_gt_of_ne hne with hlt | hlt
    · have hturn := hcycle hlt
      rw [← hsame] at hturn
      exact hacyclic _ (hreach i) hturn
    · have hturn := hcycle hlt
      rw [hsame] at hturn
      exact hacyclic _ (hreach j) hturn

end Petrel.Framework
