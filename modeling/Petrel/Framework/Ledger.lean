/-
  Petrel.Framework.Ledger — tokens that are each at one place.

  A ledger records for every token the place where it is.  Its machine has
  three entries: a token is issued at a place, moves from the place where it
  is to another one, or is lost.  A concrete system keeps its books by the
  ledger if "token x is at place p", read off the concrete state, agrees
  with the ledger (`Books`).  From that alone a token is never at two places
  (`Books.unique`), and a system whose steps lose nothing keeps every issued
  token at exactly one place.

  The lemmas `Books.stay` and `Books.put` reduce a concrete step to frame
  facts: where the one token goes, and that no other moves.

  Main results:
    * `Books.unique`  — a token is never at two places.
    * `Books.kept`    — a system whose steps are entries that lose nothing
      never loses a token.
-/

import Petrel.Framework.Machine

namespace Petrel.Framework

variable {τ π σ : Type*}

/-! ## §1. The ledger. -/

/-- Where each token is; `none` for a token not issued or lost. -/
abbrev Ledger (τ π : Type*) := τ → Option π

/-- What may happen to a token. -/
inductive Entry (τ π : Type*) where
  | issue (x : τ) (p : π)
  | move (x : τ) (p q : π)
  | lose (x : τ) (p : π)

/-- An entry that loses no token. -/
def Entry.Keeps : Entry τ π → Prop
  | .lose _ _ => False
  | _ => True

/-- The ledger as a machine that starts without tokens. -/
def Ledger.machine [DecidableEq τ] [DecidableEq π] : Machine (Ledger τ π) (Entry τ π) where
  init := fun _ => none
  step := fun l e =>
    match e with
    | .issue x p => if l x = none then some (Function.update l x (some p)) else none
    | .move x p q => if l x = some p then some (Function.update l x (some q)) else none
    | .lose x p => if l x = some p then some (Function.update l x none) else none

/-! ## §2. Books. -/

/-- The concrete state `s` keeps its books by the ledger `l`. -/
def Books (loc : σ → τ → π → Prop) (s : σ) (l : Ledger τ π) : Prop :=
  ∀ x p, loc s x p ↔ l x = some p

variable {loc : σ → τ → π → Prop} {s s' : σ} {l : Ledger τ π}

/-- **A token is never at two places.** -/
theorem Books.unique (h : Books loc s l) {x : τ} {p q : π} (hp : loc s x p) (hq : loc s x q) :
    p = q :=
  Option.some.inj (((h x p).mp hp).symm.trans ((h x q).mp hq))

theorem Books.at_iff (h : Books loc s l) (x : τ) : (∃ p, loc s x p) ↔ l x ≠ none := by
  rw [Option.ne_none_iff_exists']
  exact exists_congr (h x)

/-- A step that touches no token. -/
theorem Books.stay (h : Books loc s l) (hframe : ∀ x p, loc s' x p ↔ loc s x p) :
    Books loc s' l :=
  fun x p => (hframe x p).trans (h x p)

variable [DecidableEq τ]

/-- A step after which `x` is at `q` and nothing else has changed. -/
theorem Books.put (h : Books loc s l) {x : τ} {q : π}
    (hframe : ∀ y p, y ≠ x → (loc s' y p ↔ loc s y p)) (hx : ∀ p, loc s' x p ↔ p = q) :
    Books loc s' (Function.update l x (some q)) := by
  intro y p
  by_cases hy : y = x
  · subst hy
    rw [hx, Function.update_self, Option.some.injEq]
    exact eq_comm
  · rw [Function.update_of_ne hy, hframe y p hy]
    exact h y p

/-! ## §3. Entries that lose nothing. -/

section Kept

variable [DecidableEq π]

theorem step_issue {x : τ} (h : l x = none) (p : π) :
    Ledger.machine.step l (.issue x p) = some (Function.update l x (some p)) := if_pos h

theorem step_move {x : τ} {p : π} (h : l x = some p) (q : π) :
    Ledger.machine.step l (.move x p q) = some (Function.update l x (some q)) := if_pos h

/-- An entry that loses no token leaves every token in the books. -/
theorem kept_step {l' : Ledger τ π} {e : Entry τ π} (h : Ledger.machine.step l e = some l')
    (hkeeps : e.Keeps) {x : τ} (hx : l x ≠ none) : l' x ≠ none := by
  have hput : ∀ y q, Function.update l y (some q) x ≠ none := by
    intro y q
    by_cases hy : x = y
    · subst hy
      simp
    · rw [Function.update_of_ne hy]
      exact hx
  cases e with
  | issue y q =>
      obtain ⟨-, h⟩ := Option.ite_none_right_eq_some.mp h
      exact Option.some.inj h ▸ hput y q
  | move y p q =>
      obtain ⟨-, h⟩ := Option.ite_none_right_eq_some.mp h
      exact Option.some.inj h ▸ hput y q
  | lose y p => exact hkeeps.elim

theorem kept_run {es : List (Entry τ π)} {l l' : Ledger τ π}
    (h : Ledger.machine.runFrom l es = some l') (hkeeps : ∀ e ∈ es, e.Keeps) {x : τ}
    (hx : l x ≠ none) : l' x ≠ none := by
  induction es generalizing l with
  | nil => exact Option.some.inj h ▸ hx
  | cons e es ih =>
      obtain ⟨m, hm, hrest⟩ := Option.bind_eq_some_iff.mp h
      have hxm := kept_step hm (hkeeps e List.mem_cons_self) hx
      exact ih hrest (fun e he => hkeeps e (List.mem_cons_of_mem _ he)) hxm

/-- **No token is lost** by a system each of whose steps is answered by entries
that lose nothing. -/
theorem Books.kept {α : Type*} {M : Machine σ α} {I : σ → Ledger τ π → Prop}
    (hbooks : ∀ s l, I s l → Books loc s l)
    (hstep : ∀ s a t l, I s l → M.step s a = some t → ∃ es l', (∀ e ∈ es, e.Keeps) ∧
      Ledger.machine.runFrom l es = some l' ∧ I t l')
    {as : List α} (hl : I s l) (hrun : M.runFrom s as = some s') {x : τ} {p : π}
    (hx : loc s x p) : ∃ q, loc s' x q := by
  induction as generalizing s l p with
  | nil => exact Option.some.inj hrun ▸ ⟨p, hx⟩
  | cons a as ih =>
      obtain ⟨t, ht, hrest⟩ := Option.bind_eq_some_iff.mp hrun
      obtain ⟨es, l', hkeeps, hes, hl'⟩ := hstep s a t l hl ht
      have hxl : l x ≠ none := ((hbooks s l hl).at_iff x).mp ⟨p, hx⟩
      obtain ⟨q, hq⟩ := ((hbooks t l' hl').at_iff x).mpr (kept_run hes hkeeps hxl)
      exact ih hl' hrest hq

end Kept

end Petrel.Framework
