/-
  Petrel.Framework.Code — imperative code with exceptions over a state.

  A run of a piece of code ends in one of four ways, each with the state it
  leaves behind: it RETURNS a value, THROWS an exception that a handler may
  catch, DIES (a fault that no handler sees), or is EXHAUSTED, which is how a
  loop shows that its fuel did not suffice.

  The lemmas compute code at a state.  Together with `zoom`, which runs code
  of a component of the state, they are the symbolic execution used by every
  straight-line function of a model.  `Ensures` states what holds wherever the
  code returns, with a rule for each way to compose code.  `Keeps` states what
  the code leaves alone, however it ends.  `Extends` compares code with itself
  under more fuel.
-/

import Mathlib

namespace Petrel.Framework

variable {ε φ σ τ α β : Type}

/-- How a run ends, with the state it leaves. -/
inductive Outcome (ε φ σ α : Type) where
  | returned (a : α) (s : σ)
  | threw (e : ε) (s : σ)
  | died (f : φ) (s : σ)
  | exhausted (s : σ)

/-- Code over the state `σ` that may throw `ε` and die of `φ`. -/
def Code (ε φ σ α : Type) := σ → Outcome ε φ σ α

namespace Outcome

/-- Go on after a run. -/
def andThen : Outcome ε φ σ α → (α → Code ε φ σ β) → Outcome ε φ σ β
  | .returned a s, f => f a s
  | .threw e s, _ => .threw e s
  | .died d s, _ => .died d s
  | .exhausted s, _ => .exhausted s

/-- Change the states of an outcome. -/
def mapState (g : σ → τ) : Outcome ε φ σ α → Outcome ε φ τ α
  | .returned a s => .returned a (g s)
  | .threw e s => .threw e (g s)
  | .died d s => .died d (g s)
  | .exhausted s => .exhausted (g s)

/-- The state a run leaves. -/
def state : Outcome ε φ σ α → σ
  | .returned _ s | .threw _ s | .died _ s | .exhausted s => s

/-- The run neither returns nor throws: nothing that comes after it runs. -/
def Stuck (o : Outcome ε φ σ α) : Prop := (∃ d s, o = .died d s) ∨ ∃ s, o = .exhausted s

theorem Stuck.andThen {o : Outcome ε φ σ α} (h : o.Stuck) (f : α → Code ε φ σ β) :
    (o.andThen f).Stuck := by
  rcases h with ⟨d, s, rfl⟩ | ⟨s, rfl⟩
  · exact .inl ⟨d, s, rfl⟩
  · exact .inr ⟨s, rfl⟩

theorem Stuck.mapState {o : Outcome ε φ σ α} (h : o.Stuck) (g : σ → τ) : (o.mapState g).Stuck := by
  rcases h with ⟨d, s, rfl⟩ | ⟨s, rfl⟩
  · exact .inl ⟨d, g s, rfl⟩
  · exact .inr ⟨g s, rfl⟩

theorem Stuck.ne_returned {o : Outcome ε φ σ α} (h : o.Stuck) (a : α) (s : σ) :
    o ≠ .returned a s := by
  rcases h with ⟨d, t, rfl⟩ | ⟨t, rfl⟩ <;> simp

theorem Stuck.ne_threw {o : Outcome ε φ σ α} (h : o.Stuck) (e : ε) (s : σ) : o ≠ .threw e s := by
  rcases h with ⟨d, t, rfl⟩ | ⟨t, rfl⟩ <;> simp

theorem Stuck.state_andThen {o : Outcome ε φ σ α} (h : o.Stuck) (f : α → Code ε φ σ β) :
    (o.andThen f).state = o.state := by
  rcases h with ⟨d, s, rfl⟩ | ⟨s, rfl⟩
  · rfl
  · rfl

@[simp] theorem andThen_returned (a : α) (s : σ) (f : α → Code ε φ σ β) :
    (returned a s).andThen f = f a s := rfl

@[simp] theorem andThen_threw (e : ε) (s : σ) (f : α → Code ε φ σ β) :
    (threw e s : Outcome ε φ σ α).andThen f = threw e s := rfl

@[simp] theorem andThen_died (d : φ) (s : σ) (f : α → Code ε φ σ β) :
    (died d s : Outcome ε φ σ α).andThen f = died d s := rfl

@[simp] theorem andThen_exhausted (s : σ) (f : α → Code ε φ σ β) :
    (exhausted s : Outcome ε φ σ α).andThen f = exhausted s := rfl

@[simp] theorem mapState_returned (g : σ → τ) (a : α) (s : σ) :
    (returned a s : Outcome ε φ σ α).mapState g = returned a (g s) := rfl

@[simp] theorem mapState_threw (g : σ → τ) (e : ε) (s : σ) :
    (threw e s : Outcome ε φ σ α).mapState g = threw e (g s) := rfl

@[simp] theorem mapState_died (g : σ → τ) (d : φ) (s : σ) :
    (died d s : Outcome ε φ σ α).mapState g = died d (g s) := rfl

@[simp] theorem mapState_exhausted (g : σ → τ) (s : σ) :
    (exhausted s : Outcome ε φ σ α).mapState g = exhausted (g s) := rfl

/-- What has returned behind another run began where that one returned. -/
theorem andThen_assoc {γ : Type} (o : Outcome ε φ σ α) (f : α → Code ε φ σ β) (g : β → Code ε φ σ γ) :
    (o.andThen f).andThen g = o.andThen (fun a s => (f a s).andThen g) := by
  cases o <;> rfl

theorem andThen_pure (o : Outcome ε φ σ Unit) : o.andThen (fun _ s => .returned () s) = o := by
  cases o <;> rfl

theorem andThen_eq_returned {o : Outcome ε φ σ α} {f : α → Code ε φ σ β} {b : β} {t : σ}
    (h : o.andThen f = .returned b t) : ∃ a u, o = .returned a u ∧ f a u = .returned b t := by
  cases o with
  | returned a u => exact ⟨a, u, rfl, h⟩
  | threw e u => cases h
  | died d u => cases h
  | exhausted u => cases h

/-- What has thrown behind another run was thrown by it, or behind where it
returned. -/
theorem andThen_eq_threw {o : Outcome ε φ σ α} {f : α → Code ε φ σ β} {e : ε} {t : σ}
    (h : o.andThen f = .threw e t) :
    o = .threw e t ∨ ∃ a u, o = .returned a u ∧ f a u = .threw e t := by
  cases o with
  | returned a u => exact .inr ⟨a, u, rfl, h⟩
  | threw e' u =>
      obtain ⟨rfl, rfl⟩ := threw.inj h
      exact .inl rfl
  | died d u => cases h
  | exhausted u => cases h

theorem mapState_eq_returned {o : Outcome ε φ σ α} {g : σ → τ} {a : α} {t : τ}
    (h : o.mapState g = .returned a t) : ∃ u, o = .returned a u ∧ g u = t := by
  cases o with
  | returned b u =>
      obtain ⟨rfl, hu⟩ := returned.inj h
      exact ⟨u, rfl, hu⟩
  | threw e u => cases h
  | died d u => cases h
  | exhausted u => cases h

@[simp] theorem state_mapState (g : σ → τ) (o : Outcome ε φ σ α) :
    (o.mapState g).state = g o.state := by
  cases o <;> rfl

end Outcome

namespace Code

instance : Monad (Code ε φ σ) where
  pure a := fun s => .returned a s
  bind x f := fun s => (x s).andThen f

/-- Throw an exception. -/
def throw (e : ε) : Code ε φ σ α := fun s => .threw e s

/-- Die of a fault. -/
def die (d : φ) : Code ε φ σ α := fun s => .died d s

/-- Out of fuel. -/
def exhaust : Code ε φ σ α := fun s => .exhausted s

/-- Read the state. -/
def get : Code ε φ σ σ := fun s => .returned s s

/-- Update the state. -/
def modify (g : σ → σ) : Code ε φ σ Unit := fun s => .returned () (g s)

/-- Run code and handle the exceptions it throws. -/
def catching (x : Code ε φ σ α) (handler : ε → Code ε φ σ α) : Code ε φ σ α := fun s =>
  match x s with
  | .threw e t => handler e t
  | o => o

/-- Run code of a component of the state. -/
def zoom (read : σ → τ) (write : τ → σ → σ) (x : Code ε φ τ α) : Code ε φ σ α := fun s =>
  (x (read s)).mapState (fun t => write t s)

@[simp] theorem pure_apply (a : α) (s : σ) : (pure a : Code ε φ σ α) s = .returned a s := rfl

@[simp] theorem bind_apply (x : Code ε φ σ α) (f : α → Code ε φ σ β) (s : σ) :
    (x >>= f) s = (x s).andThen f := rfl

@[simp] theorem throw_apply (e : ε) (s : σ) : (throw e : Code ε φ σ α) s = .threw e s := rfl

@[simp] theorem die_apply (d : φ) (s : σ) : (die d : Code ε φ σ α) s = .died d s := rfl

@[simp] theorem exhaust_apply (s : σ) : (exhaust : Code ε φ σ α) s = .exhausted s := rfl

@[simp] theorem get_apply (s : σ) : (get : Code ε φ σ σ) s = .returned s s := rfl

@[simp] theorem modify_apply (g : σ → σ) (s : σ) :
    (modify g : Code ε φ σ Unit) s = .returned () (g s) := rfl

@[simp] theorem zoom_apply (read : σ → τ) (write : τ → σ → σ) (x : Code ε φ τ α) (s : σ) :
    zoom read write x s = (x (read s)).mapState (fun t => write t s) := rfl

theorem catching_of_returned {x : Code ε φ σ α} {h : ε → Code ε φ σ α} {s t : σ} {a : α}
    (hx : x s = .returned a t) : catching x h s = .returned a t := by
  unfold catching
  rw [hx]

theorem catching_of_threw {x : Code ε φ σ α} {h : ε → Code ε φ σ α} {s t : σ} {e : ε}
    (hx : x s = .threw e t) : catching x h s = h e t := by
  unfold catching
  rw [hx]

/-- A handler without an exception. -/
theorem catching_of_ne_threw {x : Code ε φ σ α} {h : ε → Code ε φ σ α} {s : σ}
    (hx : ∀ e t, x s ≠ .threw e t) : catching x h s = x s := by
  unfold catching
  cases ho : x s with
  | threw e t => exact absurd ho (hx e t)
  | _ => rfl

/-- Where every exception is a fault, none is left. -/
theorem catching_die_ne_threw (x : Code ε φ σ α) (d : φ) (s : σ) (e : ε) (t : σ) :
    catching x (fun _ => die d) s ≠ .threw e t := by
  unfold catching
  cases x s <;> simp

/-- No handler sees a fault. -/
theorem catching_eq_of_stuck {x : Code ε φ σ α} {h : ε → Code ε φ σ α} {s : σ} (hx : (x s).Stuck) :
    catching x h s = x s := by
  unfold catching
  rcases hx with ⟨d, t, hx⟩ | ⟨t, hx⟩
  · rw [hx]
  · rw [hx]

theorem catching_of_stuck {x : Code ε φ σ α} {h : ε → Code ε φ σ α} {s : σ} (hx : (x s).Stuck) :
    (catching x h s).Stuck := by
  rw [catching_eq_of_stuck hx]
  exact hx

/-! ## More fuel. -/

/-- `y` does what `x` does, except where `x` runs out of fuel. -/
def Extends (x y : Code ε φ σ α) : Prop := ∀ s, (∃ t, x s = .exhausted t) ∨ y s = x s

theorem Extends.refl (x : Code ε φ σ α) : Extends x x := fun _ => .inr rfl

theorem extends_exhaust (y : Code ε φ σ α) : Extends exhaust y := fun s => .inl ⟨s, rfl⟩

theorem Extends.bind {x y : Code ε φ σ α} {f g : α → Code ε φ σ β} (hx : Extends x y)
    (hf : ∀ a, Extends (f a) (g a)) : Extends (x >>= f) (y >>= g) := by
  intro s
  rw [bind_apply, bind_apply]
  rcases hx s with ⟨t, ht⟩ | heq
  · rw [ht]
    exact .inl ⟨t, rfl⟩
  · rw [heq]
    cases x s with
    | returned a t => exact hf a t
    | threw e t => exact .inr rfl
    | died d t => exact .inr rfl
    | exhausted t => exact .inl ⟨t, rfl⟩

theorem Extends.catching {x y : Code ε φ σ α} (hx : Extends x y) (h : ε → Code ε φ σ α) :
    Extends (x.catching h) (y.catching h) := by
  intro s
  unfold Code.catching
  rcases hx s with ⟨t, ht⟩ | heq
  · rw [ht]
    exact .inl ⟨t, rfl⟩
  · rw [heq]
    exact .inr rfl

theorem Extends.zoom {read : σ → τ} {write : τ → σ → σ} {x y : Code ε φ τ α} (hx : Extends x y) :
    Extends (Code.zoom read write x) (Code.zoom read write y) := by
  intro s
  rw [zoom_apply, zoom_apply]
  rcases hx (read s) with ⟨t, ht⟩ | heq
  · rw [ht]
    exact .inl ⟨write t s, rfl⟩
  · rw [heq]
    exact .inr rfl

theorem Extends.ite {c : Prop} [Decidable c] {x y x' y' : Code ε φ σ α} (hx : Extends x x')
    (hy : Extends y y') : Extends (if c then x else y) (if c then x' else y') := by
  split
  · exact hx
  · exact hy

/-! ## Frames. -/

/-- However the code ends, this part of the state is as before. -/
def Keeps (read : σ → τ) (x : Code ε φ σ α) : Prop := ∀ s, read (x s).state = read s

section Keeps

variable {read : σ → τ} {x : Code ε φ σ α}

theorem Keeps.bind {f : α → Code ε φ σ β} (hx : Keeps read x) (hf : ∀ a, Keeps read (f a)) :
    Keeps read (x >>= f) := by
  intro s
  rw [bind_apply]
  have hs := hx s
  cases hrun : x s with
  | returned a t =>
      rw [hrun] at hs
      exact (hf a t).trans hs
  | threw e t =>
      rw [hrun] at hs
      exact hs
  | died d t =>
      rw [hrun] at hs
      exact hs
  | exhausted t =>
      rw [hrun] at hs
      exact hs

theorem Keeps.ite {c : Prop} [Decidable c] {y : Code ε φ σ α} (hx : Keeps read x)
    (hy : Keeps read y) : Keeps read (if c then x else y) := by
  split
  · exact hx
  · exact hy

theorem keeps_pure (read : σ → τ) (a : α) : Keeps read (pure a : Code ε φ σ α) := fun _ => rfl

theorem keeps_throw (read : σ → τ) (e : ε) : Keeps read (throw e : Code ε φ σ α) := fun _ => rfl

theorem keeps_die (read : σ → τ) (d : φ) : Keeps read (die d : Code ε φ σ α) := fun _ => rfl

theorem keeps_get (read : σ → τ) : Keeps read (get : Code ε φ σ σ) := fun _ => rfl

/-- Code of a component keeps what is no part of it. -/
theorem keeps_zoom {γ : Type} {part : σ → τ} {write : τ → σ → σ} {read : σ → γ} {y : Code ε φ τ α}
    (hframe : ∀ t s, read (write t s) = read s) : Keeps read (zoom part write y) := by
  intro s
  rw [zoom_apply, Outcome.state_mapState]
  exact hframe _ s

/-- Where kept code throws, the part is as before. -/
theorem Keeps.of_threw (h : Keeps read x) {s t : σ} {e : ε} (hthrew : x s = .threw e t) :
    read t = read s := by
  have hs := h s
  rw [hthrew] at hs
  exact hs

end Keeps

/-! ## Partial correctness. -/

/-- Where the code returns from a state that meets `P`, its value and the state
it leaves meet `Q`. -/
def Ensures (P : σ → Prop) (x : Code ε φ σ α) (Q : α → σ → Prop) : Prop :=
  ∀ s a t, P s → x s = .returned a t → Q a t

section Ensures

variable {P P' : σ → Prop} {Q Q' : α → σ → Prop} {x : Code ε φ σ α}

theorem Ensures.weaken (h : Ensures P x Q) (hP : ∀ s, P' s → P s) (hQ : ∀ a s, Q a s → Q' a s) :
    Ensures P' x Q' :=
  fun s a t hs hx => hQ a t (h s a t (hP s hs) hx)

/-- **The rule of the sequence.** -/
theorem Ensures.bind {f : α → Code ε φ σ β} {R : β → σ → Prop} (hx : Ensures P x Q)
    (hf : ∀ a, Ensures (Q a) (f a) R) : Ensures P (x >>= f) R := by
  intro s b t hs hret
  rw [bind_apply] at hret
  obtain ⟨a, u, hmid, hnext⟩ := Outcome.andThen_eq_returned hret
  exact hf a u b t (hx s a u hs hmid) hnext

theorem Ensures.ite {c : Prop} [Decidable c] {y : Code ε φ σ α} (hx : c → Ensures P x Q)
    (hy : ¬ c → Ensures P y Q) : Ensures P (if c then x else y) Q := by
  split
  · exact hx ‹c›
  · exact hy ‹¬ c›

/-- What the precondition says of no state in particular may be assumed. -/
theorem Ensures.assume {c : Prop} (h : c → Ensures P x Q) : Ensures (fun s => c ∧ P s) x Q :=
  fun s a t hs hx => h hs.1 s a t hs.2 hx

theorem Ensures.exists {ι : Type} {R : ι → σ → Prop} (h : ∀ i, Ensures (R i) x Q) :
    Ensures (fun s => ∃ i, R i s) x Q := by
  intro s a t hs hx
  obtain ⟨i, hi⟩ := hs
  exact h i s a t hi hx

theorem ensures_pure {a : α} (h : ∀ s, P s → Q a s) : Ensures P (pure a : Code ε φ σ α) Q := by
  intro s b t hs hret
  obtain ⟨rfl, rfl⟩ := Outcome.returned.inj hret
  exact h s hs

theorem ensures_throw (e : ε) : Ensures P (throw e : Code ε φ σ α) Q :=
  fun _ _ _ _ hret => nomatch hret

theorem ensures_die (d : φ) : Ensures P (die d : Code ε φ σ α) Q :=
  fun _ _ _ _ hret => nomatch hret

theorem ensures_get : Ensures P (get : Code ε φ σ σ) (fun a s => a = s ∧ P s) := by
  intro s a t hs hret
  obtain ⟨rfl, rfl⟩ := Outcome.returned.inj hret
  exact ⟨rfl, hs⟩

theorem ensures_modify {g : σ → σ} {R : Unit → σ → Prop} (h : ∀ s, P s → R () (g s)) :
    Ensures P (modify g : Code ε φ σ Unit) R := by
  intro s a t hs hret
  obtain ⟨rfl, rfl⟩ := Outcome.returned.inj hret
  exact h s hs

/-- Code of a component ensures of it what it ensures alone. -/
theorem Ensures.zoom {read : σ → τ} {write : τ → σ → σ} {P : τ → Prop} {Q : α → τ → Prop}
    {y : Code ε φ τ α} (hwrite : ∀ t s, read (write t s) = t) (h : Ensures P y Q) :
    Ensures (fun s => P (read s)) (Code.zoom read write y) (fun a s => Q a (read s)) := by
  intro s a t hs hret
  rw [zoom_apply] at hret
  obtain ⟨u, hy, rfl⟩ := Outcome.mapState_eq_returned hret
  show Q a (read (write u s))
  rw [hwrite]
  exact h _ a u hs hy

/-- Code of a component leaves what does not depend on it. -/
theorem ensures_zoom_frame {read : σ → τ} {write : τ → σ → σ} {y : Code ε φ τ α}
    (hframe : ∀ t s, P s → P (write t s)) :
    Ensures P (Code.zoom read write y) (fun _ s => P s) := by
  intro s a t hs hret
  rw [zoom_apply] at hret
  obtain ⟨u, -, rfl⟩ := Outcome.mapState_eq_returned hret
  exact hframe u s hs

end Ensures

end Code

end Petrel.Framework
