/-
  Petrel.Core.Worker — the hand-off of accepted sessions to a worker.

  Acceptor fibers of any worker thread push a session into the queue of the
  worker they picked (`add_session`: lock, `push_back`, unlock) and then call
  `m_new_session_cv.notify_one`.  The worker's consumer fiber loops over

      while (!m_stop) { lock; cv.wait(lock); start every session; clear; }

  Both are program counters over one mutex, one queue and one condition
  variable.  `notify_one` wakes the consumer only while it is in `cv.wait`,
  and the wait has no predicate.

  Main results:
    * `worker_inv_step`    — the hand-off invariant, one case per action.
    * `worker_queued_pending` — while every `notify_one` finds the consumer
      waiting, a queued session has its notification still to come.
    * `worker_handoff`     — sessions start at most once and are never
      cleared unstarted; under the notify condition none is stranded.
    * `worker_strands_session` — without the condition one is.
-/

import Petrel.Framework.Machine

namespace Petrel

open Framework

/-! ## §1. The parties and their program counters. -/

/-- An accepted session, numbered in the order of acceptance. -/
abbrev SessionId := Nat

/-- Where an acceptor fiber is in `worker::do_accept` and `add_session`. -/
inductive AcceptorPc where
  | accepting                      -- in `async_accept`
  | locking (sid : SessionId)      -- about to lock `m_new_session_mtx`
  | pushing (sid : SessionId)      -- holds the mutex, about to `push_back`
  | unlocking (sid : SessionId)    -- has pushed, about to unlock
  | notifying (sid : SessionId)    -- about to call `notify_one`
  deriving DecidableEq

/-- Where the consumer fiber is in the loop of `worker::run`. -/
inductive ConsumerPc where
  | testing                        -- at the loop test `!m_stop`
  | locking                        -- about to lock the mutex
  | entering                       -- holds the mutex, about to call `cv.wait`
  | waiting                        -- blocked in `cv.wait`, the mutex released
  | woken                          -- notified, about to take the mutex again
  | starting (i : Nat)             -- holds the mutex, has started `i` sessions
  | cleared                        -- has cleared the queue, about to unlock
  | stopped                        -- has left the loop
  deriving DecidableEq

/-- Who holds the mutex. -/
inductive Party (Acc : Type) where
  | consumer
  | acceptor (a : Acc)
  deriving DecidableEq

/-- The state of one worker and of the acceptors that hand sessions to it.
`started` and `accepted` record the sessions whose fiber has been started
and the number of sessions accepted so far. -/
structure WorkerState (Acc : Type) where
  stop : Bool := false
  newSessions : List SessionId := []
  owner : Option (Party Acc) := none
  consumer : ConsumerPc := .testing
  acceptor : Acc → AcceptorPc := fun _ => .accepting
  started : List SessionId := []
  accepted : Nat := 0

/-- Who takes the next step. -/
inductive WorkerAction (Acc : Type) where
  | acceptor (a : Acc)
  | consumer
  | stop           -- `worker::stop` sets `m_stop`
  | stopNotify     -- `worker::stop` calls `notify_one`

/-! ## §2. The steps. -/

section Steps

variable {Acc : Type} [DecidableEq Acc]

/-- `notify_one` wakes the consumer if it waits, and is lost otherwise. -/
def ConsumerPc.notifyOne : ConsumerPc → ConsumerPc
  | .waiting => .woken
  | pc => pc

/-- One action of acceptor `a` in `do_accept` and `add_session`. -/
def acceptorStep (s : WorkerState Acc) (a : Acc) : Option (WorkerState Acc) :=
  let goto (s : WorkerState Acc) (pc : AcceptorPc) : WorkerState Acc :=
    { s with acceptor := Function.update s.acceptor a pc }
  match s.acceptor a with
  | .accepting => some (goto { s with accepted := s.accepted + 1 } (.locking s.accepted))
  | .locking sid =>
      if s.owner = none then some (goto { s with owner := some (.acceptor a) } (.pushing sid))
      else none
  | .pushing sid => some (goto { s with newSessions := s.newSessions ++ [sid] } (.unlocking sid))
  | .unlocking sid => some (goto { s with owner := none } (.notifying sid))
  | .notifying _ => some (goto { s with consumer := s.consumer.notifyOne } .accepting)

/-- One action of the consumer in `worker::run`. -/
def consumerStep (s : WorkerState Acc) : Option (WorkerState Acc) :=
  match s.consumer with
  | .testing => some { s with consumer := if s.stop then .stopped else .locking }
  | .locking =>
      if s.owner = none then some { s with owner := some .consumer, consumer := .entering }
      else none
  | .entering => some { s with owner := none, consumer := .waiting }
  | .waiting => none
  | .woken =>
      if s.owner = none then some { s with owner := some .consumer, consumer := .starting 0 }
      else none
  | .starting i =>
      match s.newSessions[i]? with
      | some sid => some { s with started := s.started ++ [sid], consumer := .starting (i + 1) }
      | none => some { s with newSessions := [], consumer := .cleared }
  | .cleared => some { s with owner := none, consumer := .testing }
  | .stopped => none

def workerStep (s : WorkerState Acc) : WorkerAction Acc → Option (WorkerState Acc)
  | .acceptor a => acceptorStep s a
  | .consumer => consumerStep s
  | .stop => some { s with stop := true }
  | .stopNotify => if s.stop then some { s with consumer := s.consumer.notifyOne } else none

/-- A worker with acceptors `Acc` of any threads. -/
def workerMachine (Acc : Type) [DecidableEq Acc] : Machine (WorkerState Acc) (WorkerAction Acc) where
  init := {}
  step := workerStep

end Steps

/-! ## §3. What must hold of a worker. -/

section Spec

variable {Acc : Type}

/-- The sessions queued but not started: while the consumer runs through the
queue its first `i` sessions are started already. -/
def WorkerState.pending (s : WorkerState Acc) : List SessionId :=
  match s.consumer with
  | .starting i => s.newSessions.drop i
  | _ => s.newSessions

/-- The session an acceptor has accepted and not pushed yet. -/
def AcceptorPc.carries : AcceptorPc → Option SessionId
  | .locking sid | .pushing sid => some sid
  | _ => none

/-- The session an acceptor has pushed and will still notify for. -/
def AcceptorPc.notifies : AcceptorPc → Option SessionId
  | .unlocking sid | .notifying sid => some sid
  | _ => none

/-- The acceptor is between its lock and its unlock. -/
def AcceptorPc.Holds : AcceptorPc → Prop
  | .pushing _ | .unlocking _ => True
  | _ => False

/-- The consumer is between its lock and its unlock, and not in `cv.wait`. -/
def ConsumerPc.Holds : ConsumerPc → Prop
  | .entering | .starting _ | .cleared => True
  | _ => False

/-- The consumer has not been notified since it last cleared the queue. -/
def ConsumerPc.Unnotified (pc : ConsumerPc) : Prop :=
  pc = .testing ∨ pc = .locking ∨ pc = .entering ∨ pc = .waiting

/-- A session is stranded: the consumer is blocked in `cv.wait`, the queue is
not empty, and no acceptor that pushed a queued session will still notify. -/
def WorkerState.Stranded (s : WorkerState Acc) : Prop :=
  s.consumer = .waiting ∧ s.newSessions ≠ [] ∧
    ∀ sid ∈ s.newSessions, ∀ a, (s.acceptor a).notifies ≠ some sid

instance (pc : ConsumerPc) : Decidable pc.Unnotified :=
  inferInstanceAs (Decidable (_ ∨ _))

/-- The condition on a `notify_one` call: while its session is still queued
the consumer is in `cv.wait`, or has been woken for the queue already. -/
def NotifyFindsWaiter (s : WorkerState Acc) : WorkerAction Acc → Prop
  | .acceptor a => ∀ sid ∈ s.newSessions, s.acceptor a = .notifying sid →
      s.consumer.Unnotified → s.consumer = .waiting
  | _ => True

instance (s : WorkerState Acc) : (x : WorkerAction Acc) → Decidable (NotifyFindsWaiter s x)
  | .acceptor a => inferInstanceAs (Decidable (∀ sid ∈ s.newSessions,
      s.acceptor a = .notifying sid → s.consumer.Unnotified → s.consumer = .waiting))
  | .consumer | .stop | .stopNotify => inferInstanceAs (Decidable True)

/-- The accounting of `n` sessions: each is carried by one acceptor or occurs
once in the list of those handed over, which are started or queued. -/
structure Handover (carry : Acc → Option SessionId) (handed : List SessionId) (n : Nat) :
    Prop where
  nodup : handed.Nodup
  lt : ∀ sid ∈ handed, sid < n
  carried : ∀ a sid, carry a = some sid → sid < n ∧ sid ∉ handed
  single : ∀ a b sid, carry a = some sid → carry b = some sid → a = b
  kept : ∀ sid, sid < n → sid ∈ handed ∨ ∃ a, carry a = some sid

/-- The hand-off invariant: the accounting, mutual exclusion, and a queue
that is empty once cleared. -/
structure WorkerInv (s : WorkerState Acc) : Prop where
  handover : Handover (AcceptorPc.carries ∘ s.acceptor) (s.started ++ s.pending) s.accepted
  acceptorHolds : ∀ a, (s.acceptor a).Holds → s.owner = some (.acceptor a)
  consumerHolds : s.consumer.Holds → s.owner = some .consumer
  cleared : s.consumer = .cleared → s.newSessions = []

end Spec

/-! ## §4. Each action keeps the invariant. -/

section Invariant

variable {Acc : Type}

theorem Handover.accept [DecidableEq Acc] {carry : Acc → Option SessionId}
    {handed : List SessionId} {n : Nat} (h : Handover carry handed n) {a : Acc}
    (ha : carry a = none) : Handover (Function.update carry a (some n)) handed (n + 1) where
  nodup := h.nodup
  lt := fun sid hs => Nat.lt_succ_of_lt (h.lt sid hs)
  carried := by
    intro b sid hb
    by_cases hba : b = a
    · subst hba
      rw [Function.update_self, Option.some.injEq] at hb
      subst hb
      exact ⟨Nat.lt_succ_self n, fun hn => absurd (h.lt n hn) (Nat.lt_irrefl n)⟩
    · rw [Function.update_of_ne hba] at hb
      exact ⟨Nat.lt_succ_of_lt (h.carried b sid hb).1, (h.carried b sid hb).2⟩
  single := by
    have hne : ∀ b, carry b ≠ some n := fun b hb => Nat.lt_irrefl n (h.carried b n hb).1
    intro b c sid hb hc
    have := h.single b c sid
    have := hne b
    have := hne c
    grind [Function.update_apply]
  kept := by
    intro sid hs
    by_cases hsid : sid = n
    · exact .inr ⟨a, by rw [Function.update_self, hsid]⟩
    · rcases h.kept sid (by omega) with hh | ⟨b, hb⟩
      · exact .inl hh
      · have hba : b ≠ a := by rintro rfl; simp [ha] at hb
        exact .inr ⟨b, by rw [Function.update_of_ne hba]; exact hb⟩

theorem Handover.push [DecidableEq Acc] {carry : Acc → Option SessionId}
    {handed : List SessionId} {n : Nat} (h : Handover carry handed n) {a : Acc} {sid : SessionId}
    (ha : carry a = some sid) : Handover (Function.update carry a none) (handed ++ [sid]) n where
  nodup := by
    rw [List.nodup_append_comm]
    exact List.nodup_cons.mpr ⟨(h.carried a sid ha).2, h.nodup⟩
  lt := by
    intro x hx
    rcases List.mem_append.mp hx with hx | hx
    · exact h.lt x hx
    · rw [List.mem_singleton.mp hx]
      exact (h.carried a sid ha).1
  carried := by
    intro b x hb
    have := h.carried b x
    have := h.single a b sid ha
    grind [Function.update_apply]
  single := by
    intro b c x hb hc
    have := h.single b c x
    grind [Function.update_apply]
  kept := by
    intro x hx
    rcases h.kept x hx with hh | ⟨b, hb⟩
    · exact .inl (List.mem_append_left _ hh)
    · by_cases hba : b = a
      · subst hba
        rw [ha, Option.some.injEq] at hb
        exact .inl (by simp [hb])
      · exact .inr ⟨b, by rw [Function.update_of_ne hba]; exact hb⟩

theorem worker_inv_init [DecidableEq Acc] : WorkerInv (workerMachine Acc).init where
  handover := ⟨List.nodup_nil, by intro sid h; simp [workerMachine, WorkerState.pending] at h,
    by intro a sid h; simp [workerMachine, AcceptorPc.carries] at h,
    by intro a b sid h; simp [workerMachine, AcceptorPc.carries] at h,
    by intro sid h; simp [workerMachine] at h⟩
  acceptorHolds := by intro a h; exact h.elim
  consumerHolds := by intro h; exact h.elim
  cleared := fun _ => rfl

/-- Outside the consumer's loop body the whole queue is pending. -/
theorem pending_eq_newSessions {s : WorkerState Acc} (h : ¬ s.consumer.Holds) :
    s.pending = s.newSessions := by
  unfold WorkerState.pending
  cases hc : s.consumer with
  | starting i => exact absurd (by rw [hc]; trivial) h
  | _ => rfl

/-- While an acceptor holds the mutex the consumer does not. -/
theorem WorkerInv.consumer_of_acceptor {s : WorkerState Acc} (hI : WorkerInv s) {a : Acc}
    (h : s.owner = some (.acceptor a)) : ¬ s.consumer.Holds := by
  intro hc
  have := hI.consumerHolds hc
  rw [h] at this
  simp at this

/-- A notification changes neither the pending sessions nor the mutex. -/
theorem pending_notifyOne {s t : WorkerState Acc} (hc : t.consumer = s.consumer.notifyOne)
    (hn : t.newSessions = s.newSessions) : t.pending = s.pending := by
  unfold WorkerState.pending
  rw [hc, hn]
  cases s.consumer <;> rfl

theorem holds_notifyOne {pc : ConsumerPc} : pc.notifyOne.Holds ↔ pc.Holds := by
  cases pc <;> exact Iff.rfl

theorem unnotified_notifyOne {pc : ConsumerPc} :
    pc.notifyOne.Unnotified ↔ pc.Unnotified ∧ pc ≠ .waiting := by
  cases pc <;> simp [ConsumerPc.notifyOne, ConsumerPc.Unnotified]

theorem notifyOne_eq_cleared {pc : ConsumerPc} : pc.notifyOne = .cleared ↔ pc = .cleared := by
  cases pc <;> simp [ConsumerPc.notifyOne]

/-- An acceptor that moves on without taking the mutex of another party
keeps mutual exclusion. -/
theorem WorkerInv.acceptorHolds_update [DecidableEq Acc] {s : WorkerState Acc} (hI : WorkerInv s)
    {a : Acc} {pc : AcceptorPc} (hpc : ¬ pc.Holds) (b : Acc)
    (hb : (Function.update s.acceptor a pc b).Holds) : b ≠ a ∧ s.owner = some (.acceptor b) := by
  by_cases hba : b = a
  · subst hba
    rw [Function.update_self] at hb
    exact absurd hb hpc
  · rw [Function.update_of_ne hba] at hb
    exact ⟨hba, hI.acceptorHolds b hb⟩

theorem acceptor_inv_step [DecidableEq Acc] {s t : WorkerState Acc} {a : Acc} (hI : WorkerInv s)
    (h : acceptorStep s a = some t) : WorkerInv t := by
  have hcomp : ∀ pc, AcceptorPc.carries ∘ Function.update s.acceptor a pc
      = Function.update (AcceptorPc.carries ∘ s.acceptor) a pc.carries :=
    fun pc => Function.comp_update AcceptorPc.carries s.acceptor a pc
  -- a program counter that carries the same session leaves the accounting
  have hsame : ∀ pc, pc.carries = (s.acceptor a).carries →
      AcceptorPc.carries ∘ Function.update s.acceptor a pc = AcceptorPc.carries ∘ s.acceptor := by
    intro pc hpc
    rw [hcomp, hpc]
    exact Function.update_eq_self a (AcceptorPc.carries ∘ s.acceptor)
  unfold acceptorStep at h
  cases hpc : s.acceptor a with
  | accepting =>
      simp only [hpc, Option.some.injEq] at h
      subst h
      refine ⟨?_, ?_, hI.consumerHolds, hI.cleared⟩
      · show Handover (AcceptorPc.carries ∘ Function.update s.acceptor a _) _ _
        rw [hcomp]
        exact hI.handover.accept (by simp [hpc, AcceptorPc.carries])
      · intro b hb
        exact (hI.acceptorHolds_update (by simp [AcceptorPc.Holds]) b hb).2
  | locking sid =>
      by_cases hown : s.owner = none
      · simp only [hpc, hown, if_true, Option.some.injEq] at h
        subst h
        refine ⟨?_, ?_, ?_, hI.cleared⟩
        · show Handover (AcceptorPc.carries ∘ Function.update s.acceptor a _) _ _
          rw [hsame _ (by rw [hpc]; rfl)]
          exact hI.handover
        · -- nobody else held the mutex
          intro b hb
          by_cases hba : b = a
          · rw [hba]
          · simp only [Function.update_of_ne hba] at hb
            have := hI.acceptorHolds b hb
            rw [hown] at this
            simp at this
        · intro hc
          have := hI.consumerHolds hc
          rw [hown] at this
          simp at this
      · simp [hpc, hown] at h
  | pushing sid =>
      simp only [hpc, Option.some.injEq] at h
      subst h
      have hown := hI.acceptorHolds a (by rw [hpc]; trivial)
      have hcons := hI.consumer_of_acceptor hown
      refine ⟨?_, ?_, hI.consumerHolds, ?_⟩
      · rw [pending_eq_newSessions (by exact hcons)]
        show Handover (AcceptorPc.carries ∘ Function.update s.acceptor a _)
          (s.started ++ (s.newSessions ++ [sid])) s.accepted
        have hh := hI.handover
        rw [pending_eq_newSessions hcons] at hh
        rw [hcomp, ← List.append_assoc]
        exact hh.push (by simp [hpc, AcceptorPc.carries])
      · intro b hb
        by_cases hba : b = a
        · rw [hba]
          exact hown
        · simp only [Function.update_of_ne hba] at hb
          exact hI.acceptorHolds b hb
      · intro hc
        have hc' : s.consumer = .cleared := hc
        exact absurd (by rw [hc']; trivial) hcons
  | unlocking sid =>
      simp only [hpc, Option.some.injEq] at h
      subst h
      have hown := hI.acceptorHolds a (by rw [hpc]; trivial)
      refine ⟨?_, ?_, ?_, hI.cleared⟩
      · show Handover (AcceptorPc.carries ∘ Function.update s.acceptor a _) _ _
        rw [hsame _ (by rw [hpc]; rfl)]
        exact hI.handover
      · -- the mutex was `a`'s, so no other acceptor held it
        intro b hb
        obtain ⟨hba, hownb⟩ := hI.acceptorHolds_update (by simp [AcceptorPc.Holds]) b hb
        rw [hown, Option.some.injEq, Party.acceptor.injEq] at hownb
        exact absurd hownb.symm hba
      · intro hc
        exact absurd hc (hI.consumer_of_acceptor hown)
  | notifying sid =>
      simp only [hpc, Option.some.injEq] at h
      have hpend : t.pending = s.pending := by
        rw [← h]
        exact pending_notifyOne rfl rfl
      subst h
      refine ⟨?_, ?_, ?_, ?_⟩
      · rw [hpend]
        show Handover (AcceptorPc.carries ∘ Function.update s.acceptor a _) _ _
        rw [hsame _ (by rw [hpc]; rfl)]
        exact hI.handover
      · intro b hb
        exact (hI.acceptorHolds_update (by simp [AcceptorPc.Holds]) b hb).2
      · intro hc
        exact hI.consumerHolds (holds_notifyOne.mp hc)
      · intro hc
        exact hI.cleared (notifyOne_eq_cleared.mp hc)

theorem consumer_inv_step {s t : WorkerState Acc} (hI : WorkerInv s)
    (h : consumerStep s = some t) : WorkerInv t := by
  -- where the consumer does not hold the mutex the whole queue is pending
  have hidle : ¬ s.consumer.Holds →
      Handover (AcceptorPc.carries ∘ s.acceptor) (s.started ++ s.newSessions) s.accepted :=
    fun hn => pending_eq_newSessions hn ▸ hI.handover
  -- and where it does no acceptor can
  have hacc : s.owner = some .consumer → ∀ a, ¬ (s.acceptor a).Holds := by
    intro hown a ha
    have := hI.acceptorHolds a ha
    rw [hown] at this
    simp at this
  have hfree : s.owner = none → ∀ a, ¬ (s.acceptor a).Holds := by
    intro hown a ha
    have := hI.acceptorHolds a ha
    rw [hown] at this
    simp at this
  unfold consumerStep at h
  cases hc : s.consumer with
  | testing =>
      simp only [hc, Option.some.injEq] at h
      subst h
      refine ⟨?_, hI.acceptorHolds, ?_, ?_⟩
      · have hn : ¬ ConsumerPc.Holds (if s.stop then .stopped else .locking) := by
          cases s.stop <;> exact id
        rw [pending_eq_newSessions hn]
        exact hidle (by rw [hc]; exact id)
      · intro hh
        cases hs : s.stop <;> simp [hs, ConsumerPc.Holds] at hh
      · intro hh
        cases hs : s.stop <;> simp [hs] at hh
  | locking | woken =>
      -- the consumer takes the mutex
      by_cases hown : s.owner = none
      · simp only [hc, hown, if_true, Option.some.injEq] at h
        subst h
        exact ⟨hidle (by rw [hc]; exact id), fun a ha => absurd ha (hfree hown a), fun _ => rfl,
          by intro hh; simp at hh⟩
      · simp [hc, hown] at h
  | entering | cleared =>
      -- the consumer gives it back, with the whole queue pending
      simp only [hc, Option.some.injEq] at h
      subst h
      have hown := hI.consumerHolds (by rw [hc]; trivial)
      have hh := hI.handover
      rw [show s.pending = s.newSessions by unfold WorkerState.pending; rw [hc]] at hh
      exact ⟨hh, fun a ha => absurd ha (hacc hown a), fun hh => hh.elim, by intro hh; simp at hh⟩
  | starting i =>
      have hown := hI.consumerHolds (by rw [hc]; trivial)
      have hh := hI.handover
      rw [show s.pending = s.newSessions.drop i by unfold WorkerState.pending; rw [hc]] at hh
      cases hi : s.newSessions[i]? with
      | some sid =>
          simp only [hc, hi, Option.some.injEq] at h
          subst h
          -- the started session is the head of the pending ones
          have hdrop : s.newSessions.drop i = sid :: s.newSessions.drop (i + 1) :=
            List.drop_eq_getElem?_toList_append.trans (by simp [hi])
          refine ⟨?_, fun a ha => absurd ha (hacc hown a), fun _ => hown, by intro hh; simp at hh⟩
          show Handover (AcceptorPc.carries ∘ s.acceptor)
            ((s.started ++ [sid]) ++ s.newSessions.drop (i + 1)) s.accepted
          rw [List.append_assoc, List.singleton_append, ← hdrop]
          exact hh
      | none =>
          simp only [hc, hi, Option.some.injEq] at h
          subst h
          -- the loop has passed the end of the queue, so nothing is cleared unstarted
          rw [List.drop_eq_nil_iff.mpr (List.getElem?_eq_none_iff.mp hi)] at hh
          exact ⟨hh, fun a ha => absurd ha (hacc hown a), fun _ => hown, fun _ => rfl⟩
  | waiting | stopped => simp [hc] at h

/-- **Every action keeps the hand-off invariant.** -/
theorem worker_inv_step [DecidableEq Acc] (s : WorkerState Acc) (x : WorkerAction Acc)
    (t : WorkerState Acc) (hI : WorkerInv s) (h : workerStep s x = some t) : WorkerInv t := by
  cases x with
  | acceptor a => exact acceptor_inv_step hI h
  | consumer => exact consumer_inv_step hI h
  | stop =>
      simp only [workerStep, Option.some.injEq] at h
      subst h
      exact ⟨hI.handover, hI.acceptorHolds, hI.consumerHolds, hI.cleared⟩
  | stopNotify =>
      by_cases hs : s.stop
      · simp only [workerStep, hs, if_true, Option.some.injEq] at h
        have hpend : t.pending = s.pending := by
          rw [← h]
          exact pending_notifyOne rfl rfl
        subst h
        refine ⟨?_, hI.acceptorHolds, fun hc => hI.consumerHolds (holds_notifyOne.mp hc),
          fun hc => hI.cleared (notifyOne_eq_cleared.mp hc)⟩
        rw [hpend]
        exact hI.handover
      · simp [workerStep, hs] at h

theorem worker_inv_reach [DecidableEq Acc] {s : WorkerState Acc}
    (h : (workerMachine Acc).Reach s) : WorkerInv s :=
  h.invariant worker_inv_init (fun s x t hI _ => worker_inv_step s x t hI)

end Invariant

/-! ## §5. Notifications that find the consumer waiting. -/

section Notify

variable {Acc : Type}

/-- While the consumer has not been notified, every queued session has its
notification still to come. -/
def QueuedPending (s : WorkerState Acc) : Prop :=
  s.consumer.Unnotified → ∀ sid ∈ s.newSessions, ∃ a, (s.acceptor a).notifies = some sid

theorem acceptor_queued_pending [DecidableEq Acc] {s t : WorkerState Acc} {a : Acc} (hQ : QueuedPending s)
    (hg : NotifyFindsWaiter s (.acceptor a)) (h : acceptorStep s a = some t) :
    QueuedPending t := by
  -- other acceptors keep what they will notify for
  have hother : ∀ pc, (∀ sid, (s.acceptor a).notifies = some sid → pc.notifies = some sid) →
      s.consumer.Unnotified → ∀ sid ∈ s.newSessions,
        ∃ b, (Function.update s.acceptor a pc b).notifies = some sid := by
    intro pc hpc hun sid hsid
    obtain ⟨b, hb⟩ := hQ hun sid hsid
    by_cases hba : b = a
    · subst hba
      exact ⟨b, by rw [Function.update_self]; exact hpc sid hb⟩
    · exact ⟨b, by rw [Function.update_of_ne hba]; exact hb⟩
  unfold acceptorStep at h
  cases hpc : s.acceptor a with
  | accepting =>
      simp only [hpc, Option.some.injEq] at h
      subst h
      exact hother _ (by simp [hpc, AcceptorPc.notifies])
  | locking sid =>
      by_cases hown : s.owner = none
      · simp only [hpc, hown, if_true, Option.some.injEq] at h
        subst h
        exact hother _ (by simp [hpc, AcceptorPc.notifies])
      · simp [hpc, hown] at h
  | pushing sid =>
      simp only [hpc, Option.some.injEq] at h
      subst h
      intro hun x hx
      rcases List.mem_append.mp hx with hx | hx
      · exact hother _ (by simp [hpc, AcceptorPc.notifies]) hun x hx
      · -- the session just pushed will be notified by `a`
        rw [List.mem_singleton.mp hx]
        exact ⟨a, by simp [AcceptorPc.notifies]⟩
  | unlocking sid =>
      simp only [hpc, Option.some.injEq] at h
      subst h
      exact hother _ (by simp [hpc, AcceptorPc.notifies])
  | notifying sid =>
      simp only [hpc, Option.some.injEq] at h
      subst h
      intro hun x hx
      -- the notification is lost, but its session is not queued any more
      obtain ⟨hun', hwait⟩ := unnotified_notifyOne.mp hun
      have hx' : x ∈ s.newSessions := hx
      have hne : x ≠ sid := by
        rintro rfl
        exact hwait (hg x hx' hpc hun')
      obtain ⟨b, hb⟩ := hQ hun' x hx'
      have hba : b ≠ a := by
        rintro rfl
        rw [hpc] at hb
        exact hne (Option.some.inj hb).symm
      refine ⟨b, ?_⟩
      show (Function.update s.acceptor a _ b).notifies = some x
      rw [Function.update_of_ne hba]
      exact hb

theorem consumer_queued_pending {s t : WorkerState Acc} (hI : WorkerInv s)
    (hQ : QueuedPending s) (h : consumerStep s = some t) : QueuedPending t := by
  unfold consumerStep at h
  cases hc : s.consumer with
  | testing =>
      simp only [hc, Option.some.injEq] at h
      subst h
      exact fun _ => hQ (by simp [hc, ConsumerPc.Unnotified])
  | locking =>
      by_cases hown : s.owner = none
      · simp only [hc, hown, if_true, Option.some.injEq] at h
        subst h
        exact fun _ => hQ (by simp [hc, ConsumerPc.Unnotified])
      · simp [hc, hown] at h
  | entering =>
      simp only [hc, Option.some.injEq] at h
      subst h
      exact fun _ => hQ (by simp [hc, ConsumerPc.Unnotified])
  | waiting => simp [hc] at h
  | woken =>
      by_cases hown : s.owner = none
      · simp only [hc, hown, if_true, Option.some.injEq] at h
        subst h
        intro hun
        simp [ConsumerPc.Unnotified] at hun
      · simp [hc, hown] at h
  | starting i =>
      cases hi : s.newSessions[i]? <;>
        · simp only [hc, hi, Option.some.injEq] at h
          subst h
          intro hun
          simp [ConsumerPc.Unnotified] at hun
  | cleared =>
      -- the next iteration begins with an empty queue
      simp only [hc, Option.some.injEq] at h
      subst h
      intro _ sid hsid
      have hsid' : sid ∈ s.newSessions := hsid
      rw [hI.cleared hc] at hsid'
      simp at hsid'
  | stopped => simp [hc] at h

/-- **While every `notify_one` finds the consumer waiting, every session that
is queued before the consumer is woken has its notification still to come.** -/
theorem worker_queued_pending [DecidableEq Acc] {s : WorkerState Acc}
    (h : (workerMachine Acc).ReachWhen NotifyFindsWaiter s) : QueuedPending s := by
  refine h.invariant_of (fun s hs => worker_inv_reach hs.reach) ?_ ?_
  · intro _ sid hsid
    simp [workerMachine] at hsid
  · intro s x t hI hQ hg hstep
    cases x with
    | acceptor a => exact acceptor_queued_pending hQ hg hstep
    | consumer => exact consumer_queued_pending hI hQ hstep
    | stop =>
        simp only [workerMachine, workerStep, Option.some.injEq] at hstep
        subst hstep
        exact hQ
    | stopNotify =>
        by_cases hs : s.stop
        · simp only [workerMachine, workerStep, hs, if_true, Option.some.injEq] at hstep
          subst hstep
          exact fun hun => hQ (unnotified_notifyOne.mp hun).1
        · simp [workerMachine, workerStep, hs] at hstep

/-- **THE HAND-OFF.**  In every run each accepted session is started at most
once, and it is carried by its acceptor, queued or started: none is cleared
without being started.  In every run whose `notify_one` calls find the
consumer waiting for their session, no session is ever stranded. -/
theorem worker_handoff [DecidableEq Acc] (s : WorkerState Acc) :
    ((workerMachine Acc).Reach s → s.started.Nodup ∧ ∀ sid, sid < s.accepted →
      sid ∈ s.started ∨ sid ∈ s.newSessions ∨ ∃ a, (s.acceptor a).carries = some sid) ∧
    ((workerMachine Acc).ReachWhen NotifyFindsWaiter s → ¬ s.Stranded) := by
  constructor
  · intro h
    have hI := worker_inv_reach h
    refine ⟨(List.nodup_append.mp hI.handover.nodup).1, ?_⟩
    intro sid hsid
    rcases hI.handover.kept sid hsid with hh | ha
    · rcases List.mem_append.mp hh with hs | hp
      · exact .inl hs
      · refine .inr (.inl ?_)
        revert hp
        unfold WorkerState.pending
        cases s.consumer <;> first | exact id | exact List.mem_of_mem_drop
    · exact .inr (.inr ha)
  · rintro h ⟨hwait, hne, hno⟩
    obtain ⟨sid, hsid⟩ := List.exists_mem_of_ne_nil s.newSessions hne
    obtain ⟨a, ha⟩ := worker_queued_pending h (by simp [hwait, ConsumerPc.Unnotified]) sid hsid
    exact hno sid hsid a ha

/-- A notification that finds the consumer waiting leads to a started session. -/
theorem worker_handoff_started :
    ∃ s, (workerMachine Unit).ReachWhen NotifyFindsWaiter s ∧ s.started = [0] ∧
      s.started.Nodup ∧ ¬ s.Stranded := by
  obtain ⟨s, hs, hp⟩ := (workerMachine Unit).exists_reachWhen_of_run NotifyFindsWaiter
    (List.replicate 3 .consumer ++ List.replicate 5 (.acceptor ()) ++
      List.replicate 4 .consumer)
    (fun s => s.started = [0]) (by decide)
  exact ⟨s, hs, hp, ((worker_handoff s).1 hs.reach).1, (worker_handoff s).2 hs⟩

/-- A notification that comes before the consumer's first wait is lost: the
accepted session stays queued while the consumer blocks. -/
theorem worker_strands_session :
    ∃ s, (workerMachine Unit).Reach s ∧ s.stop = false ∧ s.Stranded := by
  obtain ⟨s, hs, hp⟩ := (workerMachine Unit).exists_reach_of_run
    (List.replicate 5 (.acceptor ()) ++ List.replicate 3 .consumer)
    (fun s => s.stop = false ∧ s.consumer = .waiting ∧ s.newSessions = [0] ∧
      s.acceptor () = .accepting) (by decide)
  obtain ⟨hstop, hwait, hqueue, hacc⟩ := hp
  refine ⟨s, hs, hstop, hwait, by simp [hqueue], ?_⟩
  rintro sid - ⟨⟩
  simp [hacc, AcceptorPc.notifies]

end Notify

end Petrel
