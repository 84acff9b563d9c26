/-
  Petrel.Framework.Machine — labelled machines, guarded runs and refinement.

  A `Machine` is an initial state and a PARTIAL step function: the label
  carries every choice the environment makes (which party moves, what a
  call returns), `none` means that the label is not enabled.  A run is a
  list of labels, so that a concrete run is evaluated by the kernel.

  Main results:
    * `Reach.invariant` — an invariant kept by every step that meets the
      guard holds in every state a guarded run reaches.
    * `reach_iff_run`   — reachability is the existence of a run.
    * `run_invariant_iff` — the run lemma for a condition that is exact.
    * `Refines.reach`   — a simulation carries reachable states to
      reachable states of the abstract machine.
-/

import Mathlib

namespace Petrel.Framework

universe u v w x

/-- A labelled machine with one initial state and a partial step function. -/
structure Machine (σ : Type u) (α : Type v) where
  init : σ
  step : σ → α → Option σ

namespace Machine

variable {σ : Type u} {α : Type v} (M : Machine σ α)

/-! ## §1. Runs. -/

/-- Take the steps of a label list one after the other. -/
def runFrom (s : σ) : List α → Option σ
  | [] => some s
  | a :: as => (M.step s a).bind (fun t => runFrom t as)

/-- A run from the initial state. -/
def run (as : List α) : Option σ := M.runFrom M.init as

@[simp] theorem runFrom_nil (s : σ) : M.runFrom s [] = some s := rfl

@[simp] theorem runFrom_cons (s : σ) (a : α) (as : List α) :
    M.runFrom s (a :: as) = (M.step s a).bind (fun t => M.runFrom t as) := rfl

theorem runFrom_append (s : σ) (as bs : List α) :
    M.runFrom s (as ++ bs) = (M.runFrom s as).bind (fun t => M.runFrom t bs) := by
  induction as generalizing s with
  | nil => rfl
  | cons a as ih =>
      simp only [List.cons_append, runFrom_cons, Option.bind_assoc]
      congr 1
      funext t
      exact ih t

/-! ## §2. Guarded reachability. -/

/-- The states reached by runs whose every step meets the guard, a
condition on the state before the step and on its label. -/
inductive ReachWhen (guard : σ → α → Prop) : σ → Prop where
  | init : ReachWhen guard M.init
  | step {s t : σ} {a : α} :
      ReachWhen guard s → guard s a → M.step s a = some t → ReachWhen guard t

/-- The states reached by any run. -/
abbrev Reach : σ → Prop := M.ReachWhen (fun _ _ => True)

variable {M}

theorem ReachWhen.mono {g g' : σ → α → Prop} (hgg : ∀ s a, g s a → g' s a)
    {s : σ} (h : M.ReachWhen g s) : M.ReachWhen g' s := by
  induction h with
  | init => exact .init
  | step _ hg hs ih => exact .step ih (hgg _ _ hg) hs

theorem ReachWhen.reach {g : σ → α → Prop} {s : σ} (h : M.ReachWhen g s) : M.Reach s :=
  h.mono (fun _ _ _ => trivial)

/-- **The run lemma.**  What the initial state has and every guarded step
keeps holds in every state a guarded run reaches. -/
theorem ReachWhen.invariant {g : σ → α → Prop} {I : σ → Prop} (h0 : I M.init)
    (hstep : ∀ s a t, I s → g s a → M.step s a = some t → I t)
    {s : σ} (h : M.ReachWhen g s) : I s := by
  induction h with
  | init => exact h0
  | step _ hg hs ih => exact hstep _ _ _ ih hg hs

/-- The run lemma relative to an invariant already established. -/
theorem ReachWhen.invariant_of {g : σ → α → Prop} {J I : σ → Prop}
    (hJ : ∀ s, M.ReachWhen g s → J s) (h0 : I M.init)
    (hstep : ∀ s a t, J s → I s → g s a → M.step s a = some t → I t)
    {s : σ} (h : M.ReachWhen g s) : I s := by
  induction h with
  | init => exact h0
  | step hr hg hs ih => exact hstep _ _ _ (hJ _ hr) ih hg hs

/-- A run that continues a reachable state stays reachable. -/
theorem Reach.runFrom {s t : σ} (h : M.Reach s) {as : List α}
    (hrun : M.runFrom s as = some t) : M.Reach t := by
  induction as generalizing s with
  | nil => exact Option.some.inj hrun ▸ h
  | cons a as ih =>
      obtain ⟨u, hu, hrest⟩ := Option.bind_eq_some_iff.mp hrun
      exact ih (.step h trivial hu) hrest

/-- **Reachability is the existence of a run.** -/
theorem reach_iff_run {s : σ} : M.Reach s ↔ ∃ as, M.run as = some s := by
  constructor
  · intro h
    induction h with
    | init => exact ⟨[], rfl⟩
    | @step s t a _ _ hs ih =>
        obtain ⟨as, has⟩ := ih
        refine ⟨as ++ [a], ?_⟩
        unfold run at has ⊢
        rw [runFrom_append, has]
        simp [hs]
  · rintro ⟨as, has⟩
    exact Reach.runFrom .init has

theorem run_concat (M : Machine σ α) (as : List α) (a : α) :
    M.run (as ++ [a]) = (M.run as).bind (fun s => M.step s a) := by
  unfold run
  rw [runFrom_append]
  congr 1
  funext s
  rw [runFrom_cons]
  cases M.step s a <;> rfl

/-- A part of a run is a run. -/
theorem exists_run_of_prefix {as bs : List α} (h : bs <+: as) (hrun : (M.run as).isSome) :
    ∃ s, M.run bs = some s := by
  obtain ⟨cs, rfl⟩ := h
  unfold run at hrun ⊢
  rw [runFrom_append] at hrun
  cases hbs : M.runFrom M.init bs with
  | some s => exact ⟨s, rfl⟩
  | none =>
      rw [hbs] at hrun
      exact nomatch hrun

/-- A step of a label list is given by its position. -/
theorem exists_take_of_prefix {as before : List α} {a : α} (h : before ++ [a] <+: as) :
    ∃ k < as.length, before = as.take k ∧ as[k]? = some a := by
  obtain ⟨rest, rfl⟩ := h
  refine ⟨before.length, ?_, ?_, ?_⟩
  · rw [List.length_append, List.length_append, List.length_singleton]
    omega
  · rw [List.append_assoc, List.take_left]
  · simp

/-- **The run lemma for an exact condition.**  If a step from a state with `I`
leads to a state with `I` exactly when it meets the guard, then all states of a
run have `I` exactly when all its steps meet the guard. -/
theorem run_invariant_iff {I : σ → Prop} {g : σ → α → Prop} (h0 : I M.init)
    (hstep : ∀ s a t, I s → M.step s a = some t → (I t ↔ g s a)) {as : List α}
    (hrun : (M.run as).isSome) :
    (∀ before s, before <+: as → M.run before = some s → I s) ↔
      ∀ before a s, before ++ [a] <+: as → M.run before = some s → g s a := by
  have hnext : ∀ before a s t, M.run before = some s → M.run (before ++ [a]) = some t →
      M.step s a = some t := by
    intro before a s t hs ht
    rw [run_concat, hs] at ht
    exact ht
  constructor
  · intro hall before a s hbefore hs
    obtain ⟨t, ht⟩ := exists_run_of_prefix hbefore hrun
    have hI := hall before s ((List.prefix_append before [a]).trans hbefore) hs
    exact (hstep s a t hI (hnext before a s t hs ht)).mp (hall _ t hbefore ht)
  · intro hall before
    induction before using List.reverseRecOn with
    | nil =>
        intro s _ hs
        exact Option.some.inj hs ▸ h0
    | append_singleton before a ih =>
        intro t hbefore ht
        have hpre := (List.prefix_append before [a]).trans hbefore
        obtain ⟨s, hs⟩ := exists_run_of_prefix hpre hrun
        have hI := ih s hpre hs
        exact (hstep s a t hI (hnext before a s t hs ht)).mpr (hall before a s hbefore hs)

/-- A run that the kernel evaluates to a state with a decidable property. -/
theorem exists_reach_of_run (M : Machine σ α) (as : List α) (p : σ → Prop) [DecidablePred p]
    (h : (M.run as).map (fun s => decide (p s)) = some true) : ∃ s, M.Reach s ∧ p s := by
  obtain ⟨s, hs, hp⟩ := Option.map_eq_some_iff.mp h
  exact ⟨s, reach_iff_run.mpr ⟨as, hs⟩, of_decide_eq_true hp⟩

/-- Take the steps of a label list, each checked against the guard. -/
def guardedRunFrom (M : Machine σ α) (guard : σ → α → Prop) [∀ s a, Decidable (guard s a)]
    (s : σ) : List α → Option σ
  | [] => some s
  | a :: as =>
      if guard s a then (M.step s a).bind (fun t => guardedRunFrom M guard t as) else none

theorem ReachWhen.guardedRunFrom {guard : σ → α → Prop} [∀ s a, Decidable (guard s a)] {s t : σ}
    (h : M.ReachWhen guard s) {as : List α} (hrun : M.guardedRunFrom guard s as = some t) :
    M.ReachWhen guard t := by
  induction as generalizing s with
  | nil => exact Option.some.inj hrun ▸ h
  | cons a as ih =>
      rw [Machine.guardedRunFrom] at hrun
      by_cases hg : guard s a
      · rw [if_pos hg] at hrun
        obtain ⟨u, hu, hrest⟩ := Option.bind_eq_some_iff.mp hrun
        exact ih (.step h hg hu) hrest
      · simp [hg] at hrun

/-- A guarded run that the kernel evaluates. -/
theorem exists_reachWhen_of_run (M : Machine σ α) (guard : σ → α → Prop)
    [∀ s a, Decidable (guard s a)] (as : List α) (p : σ → Prop) [DecidablePred p]
    (h : (M.guardedRunFrom guard M.init as).map (fun s => decide (p s)) = some true) :
    ∃ s, M.ReachWhen guard s ∧ p s := by
  obtain ⟨s, hs, hp⟩ := Option.map_eq_some_iff.mp h
  exact ⟨s, ReachWhen.guardedRunFrom .init hs, of_decide_eq_true hp⟩

/-! ## §3. Refinement. -/

/-- `R` simulates `M` in `A`: initial states are related, and a step of a
related reachable state is answered by a run of the abstract machine. -/
structure Refines {τ : Type w} {β : Type x} (M : Machine σ α) (A : Machine τ β)
    (guard : σ → α → Prop) (R : σ → τ → Prop) : Prop where
  init : R M.init A.init
  step : ∀ {s s' : σ} {a : α} {t : τ}, M.ReachWhen guard s → R s t → guard s a →
    M.step s a = some s' → ∃ bs t', A.runFrom t bs = some t' ∧ R s' t'

/-- **A simulation carries reachable states to reachable states.** -/
theorem Refines.reach {τ : Type w} {β : Type x} {A : Machine τ β}
    {guard : σ → α → Prop} {R : σ → τ → Prop} (hR : Refines M A guard R)
    {s : σ} (h : M.ReachWhen guard s) : ∃ t, A.Reach t ∧ R s t := by
  induction h with
  | init => exact ⟨A.init, .init, hR.init⟩
  | step hr hg hs ih =>
      obtain ⟨t, ht, hst⟩ := ih
      obtain ⟨bs, t', hrun, hst'⟩ := hR.step hr hst hg hs
      exact ⟨t', Reach.runFrom ht hrun, hst'⟩

end Machine

end Petrel.Framework
