/-
  Petrel.Framework.DeadlineTimer — a deadline timer of an event loop.

  A wait of a timer ends in one of two ways.  It expires, or it is cancelled:
  by `cancel`, by a new expiry time, or with the timer.  Either way its handler
  goes to the queue of the loop and runs later, with a code that says which.
  What has expired cannot be cancelled any more: its handler is in the queue
  and will run with success, whatever is done to the timer until then.

  `ω` is what the owner of the timer wants to remember of a wait.

  Main results:
    * `Expired.cancel`, `Expired.arm` — neither adds an expired handler.
    * `Expired.expire` — an expiry adds the wait that was pending.
-/

import Mathlib

namespace Petrel.Framework

/-- A handler in the queue: the wait, and whether the wait has expired or was
aborted. -/
structure TimerHandler (ω : Type) where
  wait : ω
  expired : Bool
  deriving DecidableEq

/-- A timer with at most one pending wait, and the handlers of the waits that
have ended. -/
structure DeadlineTimer (ω : Type) where
  pending : Option ω := none
  queued : List (TimerHandler ω) := []
  deriving DecidableEq

namespace DeadlineTimer

variable {ω : Type}

/-! ## §1. The operations. -/

/-- Abort the pending wait. -/
def cancel (t : DeadlineTimer ω) : DeadlineTimer ω :=
  match t.pending with
  | none => t
  | some w => { pending := none, queued := ⟨w, false⟩ :: t.queued }

/-- Set a new expiry time, which aborts a pending wait, and wait for it. -/
def arm (t : DeadlineTimer ω) (w : ω) : DeadlineTimer ω := { t.cancel with pending := some w }

/-- The expiry time of the pending wait is reached. -/
def expire (t : DeadlineTimer ω) : Option (DeadlineTimer ω) :=
  t.pending.map (fun w => { pending := none, queued := ⟨w, true⟩ :: t.queued })

/-- Take a handler from the queue to run it. -/
def take [DecidableEq ω] (t : DeadlineTimer ω) (h : TimerHandler ω) : Option (DeadlineTimer ω) :=
  if h ∈ t.queued then some { t with queued := t.queued.erase h } else none

@[simp] theorem pending_cancel (t : DeadlineTimer ω) : t.cancel.pending = none := by
  unfold cancel
  cases h : t.pending with
  | none => exact h
  | some w => rfl

theorem expire_eq_some {t u : DeadlineTimer ω} (h : t.expire = some u) :
    ∃ w, t.pending = some w ∧ u = { pending := none, queued := ⟨w, true⟩ :: t.queued } := by
  obtain ⟨w, hw, rfl⟩ := Option.map_eq_some_iff.mp h
  exact ⟨w, hw, rfl⟩

theorem take_eq_some [DecidableEq ω] {t u : DeadlineTimer ω} {h : TimerHandler ω}
    (htake : t.take h = some u) : h ∈ t.queued ∧ u = { t with queued := t.queued.erase h } := by
  unfold take at htake
  by_cases hmem : h ∈ t.queued
  · rw [if_pos hmem] at htake
    exact ⟨hmem, (Option.some.inj htake).symm⟩
  · rw [if_neg hmem] at htake
    cases htake

theorem take_of_mem [DecidableEq ω] {t : DeadlineTimer ω} {h : TimerHandler ω} (hmem : h ∈ t.queued) :
    t.take h = some { t with queued := t.queued.erase h } := if_pos hmem

/-! ## §2. The handlers of expired waits. -/

/-- Every expired wait whose handler is still queued has `P`. -/
def Expired (P : ω → Prop) (t : DeadlineTimer ω) : Prop :=
  ∀ h ∈ t.queued, h.expired = true → P h.wait

variable {P Q : ω → Prop} {t u : DeadlineTimer ω}

theorem Expired.mono (hPQ : ∀ w, P w → Q w) (h : t.Expired P) : t.Expired Q := by
  intro g hg hexp
  exact hPQ g.wait (h g hg hexp)

theorem Expired.cancel (h : t.Expired P) : t.cancel.Expired P := by
  intro g hg hexp
  unfold DeadlineTimer.cancel at hg
  cases hp : t.pending with
  | none =>
      rw [hp] at hg
      exact h g hg hexp
  | some w =>
      rw [hp] at hg
      rcases List.mem_cons.mp hg with rfl | hg
      · cases hexp
      · exact h g hg hexp

theorem Expired.arm (h : t.Expired P) (w : ω) : (t.arm w).Expired P := h.cancel

theorem Expired.expire (h : t.Expired P) (hexp : t.expire = some u)
    (hpending : ∀ w, t.pending = some w → P w) : u.Expired P := by
  obtain ⟨w, hw, rfl⟩ := expire_eq_some hexp
  intro g hg hg'
  rcases List.mem_cons.mp hg with rfl | hg
  · exact hpending w hw
  · exact h g hg hg'

theorem Expired.take [DecidableEq ω] {g : TimerHandler ω} (h : t.Expired P) (htake : t.take g = some u) :
    u.Expired P := by
  obtain ⟨-, rfl⟩ := take_eq_some htake
  exact fun k hk hexp => h k (List.mem_of_mem_erase hk) hexp

end DeadlineTimer

end Petrel.Framework
