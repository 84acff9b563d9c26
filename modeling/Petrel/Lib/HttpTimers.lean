/-
  Petrel.Lib.HttpTimers — the timeouts of the HTTP client.

  Three operations of a client are guarded by a timer: the connect, the read
  of the head and the read of the body.  The timer is armed before its
  operation starts and cancelled when the fiber goes on behind it.  The
  handler of the timer tells a timer that has expired from one that was
  cancelled, and cancels whatever operation the socket has then.

  Between the end of an operation and the moment the fiber goes on, the timer
  can still expire, and a handler that is queued by then runs all the same: in
  a later operation, or when the object is gone.

  Main results:
    * `timedInv_step_iff` — exactly the steps in time keep every expired timer
      on an operation that is pending.
    * `timeouts_cancel_own_iff` — so exactly in the runs of such steps every
      timeout cancels its own operation.
    * `stale_timeout` — the next write is cancelled, or a deleted object used.
-/

import Petrel.Framework.DeadlineTimer
import Petrel.Framework.Machine

namespace Petrel

open Framework

/-! ## §1. The client and its operations. -/

/-- The asynchronous operations on the socket. -/
inductive SocketOp where
  | connect
  | write
  | readHead
  | readBody
  deriving DecidableEq

/-- The write of a request has no timeout. -/
def SocketOp.Timed (op : SocketOp) : Prop := op ≠ .write

/-- Where the fiber is. -/
inductive ClientPc where
  | idle                                   -- in no method
  | resolving
  | waiting (op : SocketOp)                -- the operation is pending
  | completed (op : SocketOp) (ok : Bool)  -- it has ended, the fiber has not gone on yet
  deriving DecidableEq

/-- A call of `m_sock.cancel()` by `timeout_handler`: the operation that the
timer was armed for, the one that is pending, and whether the object is still
there. -/
structure SocketCancel where
  guarded : Nat
  pending : Option Nat
  alive : Bool
  deriving DecidableEq

/-- The timeout cancels the operation that it guards. -/
def SocketCancel.Own (c : SocketCancel) : Prop := c.alive = true ∧ c.pending = some c.guarded

/-- A client object with its fiber.  The operations are numbered as they
start, so `started` is the number of the last one.  The queue of `timer` has
the handlers of all timers of the object, of which one exists at a time. -/
structure TimedClient where
  pc : ClientPc := .idle
  started : Nat := 0
  timer : DeadlineTimer Nat := {}
  connected : Bool := false
  deleted : Bool := false
  cancels : List SocketCancel := []
  deriving DecidableEq

namespace TimedClient

/-- The number of the operation that is pending on the socket. -/
def pendingOp (s : TimedClient) : Option Nat :=
  match s.pc with
  | .waiting _ => some s.started
  | _ => none

/-- Start an operation that has no timer. -/
def start (s : TimedClient) (op : SocketOp) : TimedClient :=
  { s with pc := .waiting op, started := s.started + 1 }

/-- `expires_from_now`, `async_wait` and the operation that they are for. -/
def startTimed (s : TimedClient) (op : SocketOp) : TimedClient :=
  { s.start op with timer := s.timer.arm (s.started + 1) }

/-- `timer.cancel()`, or the dtor of the timer where an exception leaves. -/
def cancelTimer (s : TimedClient) : TimedClient := { s with timer := s.timer.cancel }

/-- `m_sock.cancel()` from the handler of a timer.  What becomes of the
operation is up to the environment. -/
def sockCancel (s : TimedClient) (guarded : Nat) : TimedClient :=
  { s with cancels := ⟨guarded, s.pendingOp, !s.deleted⟩ :: s.cancels }

/-- `timeout_handler`: the code of a cancelled wait is `operation_aborted`. -/
def timeoutHandler (s : TimedClient) (h : TimerHandler Nat) : TimedClient :=
  if h.expired then s.sockCancel h.wait else s

/-- The code of `connect` behind `async_connect`.  An error leaves the object
as connected as it was. -/
def connectDone (s : TimedClient) (ok : Bool) : TimedClient :=
  { s.cancelTimer with pc := .idle, connected := s.connected || ok }

/-- `send_recv` behind `async_write`: an error leaves before there is a timer. -/
def writeDone (s : TimedClient) (ok : Bool) : TimedClient :=
  if ok then s.startTimed .readHead else { s with pc := .idle }

/-- `send_recv` behind `async_read_until`.  `more` says that the head is valid
and has a body of which a part is still to be read; then the timer is armed
again. -/
def headDone (s : TimedClient) (ok more : Bool) : TimedClient :=
  if ok && more then s.cancelTimer.startTimed .readBody else { s.cancelTimer with pc := .idle }

/-- `send_recv` behind `async_read`. -/
def bodyDone (s : TimedClient) : TimedClient := { s.cancelTimer with pc := .idle }

/-- The fiber goes on behind an operation that has ended. -/
def goOn (s : TimedClient) (op : SocketOp) (ok more : Bool) : TimedClient :=
  match op with
  | .connect => s.connectDone ok
  | .write => s.writeDone ok
  | .readHead => s.headDone ok more
  | .readBody => s.bodyDone

end TimedClient

/-- What can happen next: a method is called, an operation ends (`ok` where
the code treats the end as no error), the timer expires, the fiber goes on, a
queued handler runs, or the object is deleted with its Lua state. -/
inductive TimedAction where
  | connect
  | resolved (ok : Bool)
  | disconnect
  | exchange                      -- `get` or `post`
  | complete (ok : Bool)
  | expire
  | resume (more : Bool)
  | handler (h : TimerHandler Nat)
  | delete
  deriving DecidableEq

def timedStep (s : TimedClient) : TimedAction → Option TimedClient
  | .connect => if s.pc = .idle ∧ s.deleted = false then some { s with pc := .resolving } else none
  | .resolved ok =>
      if s.pc = .resolving then
        some (if ok then s.startTimed .connect else { s with pc := .idle })
      else none
  | .disconnect =>
      if s.pc = .idle ∧ s.deleted = false then some { s with connected := false } else none
  | .exchange =>
      if s.pc = .idle ∧ s.deleted = false then
        some (if s.connected then s.start .write else s)
      else none
  | .complete ok =>
      match s.pc with
      | .waiting op => some { s with pc := .completed op ok }
      | _ => none
  | .expire => s.timer.expire.map (fun timer => { s with timer := timer })
  | .resume more =>
      match s.pc with
      | .completed op ok => some (s.goOn op ok more)
      | _ => none
  | .handler h => (s.timer.take h).map (fun timer => { s with timer := timer }.timeoutHandler h)
  | .delete => if s.pc = .idle ∧ s.deleted = false then some { s with deleted := true } else none

/-- A new client object and its fiber. -/
def timedMachine : Machine TimedClient TimedAction where
  init := {}
  step := timedStep

/-! ## §2. Timeouts in time. -/

/-- The steps that are in time: an operation does not end while the handler of
its expired timer waits in the queue, and a timer does not expire when its
operation has ended and the fiber has not gone on yet. -/
def OnTime (s : TimedClient) : TimedAction → Prop
  | .complete _ => ∀ h ∈ s.timer.queued, h.expired = true → h.wait ≠ s.started
  | .expire => ∃ op, s.pc = .waiting op
  | _ => True

/-- An operation with a timer has been started and the fiber has not gone on
behind it. -/
def ClientPc.Guarded : ClientPc → Prop
  | .waiting op | .completed op _ => op.Timed
  | .idle | .resolving => False

/-- All timeouts have cancelled their own operations, the timer is armed for
the last operation, and expired timers guard what is pending. -/
structure TimedInv (s : TimedClient) : Prop where
  own : ∀ c ∈ s.cancels, c.Own
  armed : ∀ w, s.timer.pending = some w → w = s.started ∧ s.pc.Guarded
  expired : s.timer.Expired (fun w => s.pendingOp = some w)
  gone : s.deleted = true → s.pc = .idle

variable {s : TimedClient}

/-- Where nothing is pending, no expired handler is queued. -/
theorem TimedInv.none_expired (h : TimedInv s) (hnone : s.pendingOp = none) :
    s.timer.Expired (fun _ => False) := by
  refine h.expired.mono ?_
  intro w hw
  rw [hnone] at hw
  cases hw

/-- Without a guarded operation the timer is not armed. -/
theorem TimedInv.not_armed (h : TimedInv s) (hpc : ¬ s.pc.Guarded) : s.timer.pending = none := by
  cases hp : s.timer.pending with
  | none => rfl
  | some w => exact absurd (h.armed w hp).2 hpc

/-- While the object is there, the fiber may be anywhere. -/
theorem gone_of_alive (halive : s.deleted = false) : s.deleted = true → s.pc = .idle := by
  intro hgone
  exact absurd (halive.symm.trans hgone) Bool.false_ne_true

/-- A state with no timer and no expired handler. -/
theorem timedInv_of_quiet (hown : ∀ c ∈ s.cancels, c.Own) (hpending : s.timer.pending = none)
    (hexp : s.timer.Expired (fun _ => False)) (hgone : s.deleted = true → s.pc = .idle) :
    TimedInv s where
  own := hown
  armed := by
    intro w hw
    rw [hpending] at hw
    cases hw
  expired := hexp.mono (fun _ h => h.elim)
  gone := hgone

/-- An operation is started together with its timer. -/
theorem timedInv_startTimed (hown : ∀ c ∈ s.cancels, c.Own)
    (hexp : s.timer.Expired (fun _ => False)) (halive : s.deleted = false) {op : SocketOp}
    (hop : op.Timed) : TimedInv (s.startTimed op) where
  own := hown
  armed := by
    intro w hw
    exact ⟨(Option.some.inj hw).symm, hop⟩
  expired := (hexp.arm (s.started + 1)).mono (fun _ h => h.elim)
  gone := gone_of_alive (s := s.startTimed op) halive

/-- The object is there while the fiber is in a method. -/
theorem TimedInv.alive (h : TimedInv s) (hpc : s.pc ≠ .idle) : s.deleted = false := by
  cases hdel : s.deleted with
  | false => rfl
  | true => exact absurd (h.gone hdel) hpc

/-! ## §3. The steps. -/

/-- An idle fiber has no operation. -/
theorem TimedInv.idle (h : TimedInv s) (hpc : s.pc = .idle ∨ s.pc = .resolving) :
    s.timer.pending = none ∧ s.timer.Expired (fun _ => False) := by
  constructor
  · apply h.not_armed
    rcases hpc with hpc | hpc <;> (rw [hpc]; exact id)
  · apply h.none_expired
    unfold TimedClient.pendingOp
    rcases hpc with hpc | hpc <;> rw [hpc]

/-- **The fiber goes on.**  The timer of the operation is cancelled, and the
next one is armed for the next operation. -/
theorem timedInv_goOn (h : TimedInv s) {op : SocketOp} {ok : Bool} (hpc : s.pc = .completed op ok)
    (more : Bool) : TimedInv (s.goOn op ok more) := by
  have halive : s.deleted = false := h.alive (by rw [hpc]; exact nofun)
  have hnone : s.timer.Expired (fun _ => False) := h.none_expired (by
    unfold TimedClient.pendingOp
    rw [hpc])
  -- behind an operation with a timer
  have hcancel : ∀ connected, TimedInv { s.cancelTimer with pc := .idle, connected := connected } := by
    intro connected
    exact timedInv_of_quiet h.own s.timer.pending_cancel hnone.cancel (fun _ => rfl)
  cases op with
  | connect => exact hcancel _
  | write =>
      show TimedInv (s.writeDone ok)
      unfold TimedClient.writeDone
      cases ok with
      | true => exact timedInv_startTimed h.own hnone halive (by decide : SocketOp.readHead ≠ .write)
      | false =>
          refine timedInv_of_quiet h.own (h.not_armed ?_) hnone (fun _ => rfl)
          rw [hpc]
          exact fun hwrite => hwrite rfl
  | readHead =>
      show TimedInv (s.headDone ok more)
      unfold TimedClient.headDone
      cases ok && more with
      | true =>
          exact timedInv_startTimed (s := s.cancelTimer) h.own hnone.cancel halive
            (by decide : SocketOp.readBody ≠ .write)
      | false => exact hcancel s.connected
  | readBody => exact hcancel s.connected

/-- **The operation ends** while no expired handler of it is queued. -/
theorem timedInv_complete (h : TimedInv s) {op : SocketOp} (hpc : s.pc = .waiting op)
    (htime : ∀ g ∈ s.timer.queued, g.expired = true → g.wait ≠ s.started) (ok : Bool) :
    TimedInv { s with pc := .completed op ok } where
  own := h.own
  armed := by
    intro w hw
    obtain ⟨hlast, hguarded⟩ := h.armed w hw
    rw [hpc] at hguarded
    exact ⟨hlast, hguarded⟩
  expired := by
    -- an expired handler in the queue would be one for this operation
    intro g hg hexp
    have hown : s.pendingOp = some g.wait := h.expired g hg hexp
    unfold TimedClient.pendingOp at hown
    rw [hpc] at hown
    exact absurd (Option.some.inj hown).symm (htime g hg hexp)
  gone := by
    intro hgone
    exact nomatch (h.gone hgone).symm.trans hpc

/-- **The timer expires** while its operation is pending. -/
theorem timedInv_expire (h : TimedInv s) {op : SocketOp} (hpc : s.pc = .waiting op)
    {timer : DeadlineTimer Nat} (htimer : s.timer.expire = some timer) :
    TimedInv { s with timer := timer } where
  own := h.own
  armed := by
    intro w hw
    obtain ⟨w', -, rfl⟩ := DeadlineTimer.expire_eq_some htimer
    cases hw
  expired := by
    refine h.expired.expire htimer ?_
    intro w hw
    unfold TimedClient.pendingOp
    rw [hpc, (h.armed w hw).1]
  gone := h.gone

/-- **A handler runs** and cancels the operation it guards, if it has expired. -/
theorem timedInv_handler (h : TimedInv s) {g : TimerHandler Nat} {timer : DeadlineTimer Nat}
    (htimer : s.timer.take g = some timer) :
    TimedInv (TimedClient.timeoutHandler { s with timer := timer } g) := by
  obtain ⟨hmem, rfl⟩ := DeadlineTimer.take_eq_some htimer
  have hrest : TimedInv { s with timer := { s.timer with queued := s.timer.queued.erase g } } :=
    ⟨h.own, h.armed, h.expired.take htimer, h.gone⟩
  unfold TimedClient.timeoutHandler
  by_cases hexp : g.expired = true
  · rw [if_pos hexp]
    refine ⟨?_, hrest.armed, hrest.expired, hrest.gone⟩
    -- the operation that the timer guards is pending
    have hpending : s.pendingOp = some g.wait := h.expired g hmem hexp
    have halive : s.deleted = false := by
      apply h.alive
      intro hpc
      unfold TimedClient.pendingOp at hpending
      rw [hpc] at hpending
      cases hpending
    intro c hc
    rcases List.mem_cons.mp hc with rfl | hc
    · exact ⟨congrArg (!·) halive, hpending⟩
    · exact h.own c hc
  · rw [if_neg hexp]
    exact hrest

/-- **One step in time.** -/
theorem timedInv_step {t : TimedClient} {a : TimedAction} (h : TimedInv s) (htime : OnTime s a)
    (hstep : timedStep s a = some t) : TimedInv t := by
  cases a with
  | connect =>
      obtain ⟨⟨hpc, halive⟩, ht⟩ := Option.ite_none_right_eq_some.mp hstep
      obtain rfl := Option.some.inj ht
      obtain ⟨hpending, hexp⟩ := h.idle (.inl hpc)
      exact timedInv_of_quiet h.own hpending hexp (gone_of_alive halive)
  | resolved ok =>
      obtain ⟨hpc, ht⟩ := Option.ite_none_right_eq_some.mp hstep
      obtain ⟨hpending, hexp⟩ := h.idle (.inr hpc)
      have halive : s.deleted = false := h.alive (by rw [hpc]; exact nofun)
      cases ok with
      | true =>
          obtain rfl := Option.some.inj ht
          exact timedInv_startTimed h.own hexp halive (by decide : SocketOp.connect ≠ .write)
      | false =>
          obtain rfl := Option.some.inj ht
          exact timedInv_of_quiet h.own hpending hexp (fun _ => rfl)
  | disconnect =>
      obtain ⟨⟨hpc, -⟩, ht⟩ := Option.ite_none_right_eq_some.mp hstep
      obtain rfl := Option.some.inj ht
      obtain ⟨hpending, hexp⟩ := h.idle (.inl hpc)
      exact timedInv_of_quiet h.own hpending hexp (fun _ => hpc)
  | exchange =>
      obtain ⟨⟨hpc, halive⟩, ht⟩ := Option.ite_none_right_eq_some.mp hstep
      obtain ⟨hpending, hexp⟩ := h.idle (.inl hpc)
      cases hconn : s.connected with
      | true =>
          rw [hconn] at ht
          obtain rfl := Option.some.inj ht
          exact timedInv_of_quiet h.own hpending hexp (gone_of_alive halive)
      | false =>
          rw [hconn] at ht
          obtain rfl := Option.some.inj ht
          exact h
  | complete ok =>
      unfold timedStep at hstep
      cases hpc : s.pc with
      | waiting op =>
          rw [hpc] at hstep
          obtain rfl := Option.some.inj hstep
          exact timedInv_complete h hpc htime ok
      | idle | resolving | completed op ok' =>
          rw [hpc] at hstep
          cases hstep
  | expire =>
      obtain ⟨timer, htimer, rfl⟩ := Option.map_eq_some_iff.mp hstep
      obtain ⟨op, hpc⟩ := htime
      exact timedInv_expire h hpc htimer
  | resume more =>
      unfold timedStep at hstep
      cases hpc : s.pc with
      | completed op ok =>
          rw [hpc] at hstep
          obtain rfl := Option.some.inj hstep
          exact timedInv_goOn h hpc more
      | idle | resolving | waiting op =>
          rw [hpc] at hstep
          cases hstep
  | handler g =>
      obtain ⟨timer, htimer, rfl⟩ := Option.map_eq_some_iff.mp hstep
      exact timedInv_handler h htimer
  | delete =>
      obtain ⟨⟨hpc, -⟩, ht⟩ := Option.ite_none_right_eq_some.mp hstep
      obtain rfl := Option.some.inj ht
      obtain ⟨hpending, hexp⟩ := h.idle (.inl hpc)
      exact timedInv_of_quiet h.own hpending hexp (fun _ => hpc)

theorem timedInv_init : TimedInv timedMachine.init := by
  refine timedInv_of_quiet ?_ rfl ?_ (fun _ => rfl)
  · intro c hc
    cases hc
  · intro g hg
    cases hg

/-! ## §4. Timeouts out of time. -/

/-- Where a queued handler of an expired timer guards nothing that is pending,
it can run next and cancels what it does not guard. -/
theorem misfires {h : TimerHandler Nat} (hmem : h ∈ s.timer.queued) (hexp : h.expired = true)
    (hnone : s.pendingOp = none) :
    ∃ u, timedMachine.step s (.handler h) = some u ∧ ∃ c ∈ u.cancels, ¬ c.Own := by
  refine ⟨_, congrArg (Option.map _) (DeadlineTimer.take_of_mem hmem), ?_⟩
  refine ⟨⟨h.wait, s.pendingOp, !s.deleted⟩, ?_, ?_⟩
  · show _ ∈ (TimedClient.timeoutHandler _ h).cancels
    unfold TimedClient.timeoutHandler
    rw [if_pos hexp]
    exact List.mem_cons_self ..
  · intro hown
    have hpending : s.pendingOp = some h.wait := hown.2
    rw [hnone] at hpending
    cases hpending

/-- **A step out of time** leaves a timeout in the queue that has lost its
operation. -/
theorem out_of_time {t : TimedClient} {a : TimedAction} (hstep : timedStep s a = some t)
    (hlate : ¬ OnTime s a) :
    ∃ h ∈ t.timer.queued, h.expired = true ∧ t.pendingOp = none := by
  cases a with
  | complete ok =>
      unfold OnTime at hlate
      push Not at hlate
      obtain ⟨h, hmem, hexp, -⟩ := hlate
      unfold timedStep at hstep
      cases hpc : s.pc with
      | waiting op =>
          rw [hpc] at hstep
          obtain rfl := Option.some.inj hstep
          exact ⟨h, hmem, hexp, rfl⟩
      | idle | resolving | completed op ok' =>
          rw [hpc] at hstep
          cases hstep
  | expire =>
      obtain ⟨timer, htimer, rfl⟩ := Option.map_eq_some_iff.mp hstep
      obtain ⟨w, -, rfl⟩ := DeadlineTimer.expire_eq_some htimer
      refine ⟨⟨w, true⟩, List.mem_cons_self .., rfl, ?_⟩
      show s.pendingOp = none
      unfold TimedClient.pendingOp
      cases hpc : s.pc with
      | waiting op => exact absurd ⟨op, hpc⟩ hlate
      | idle | resolving | completed op ok => rfl
  | connect | resolved ok | disconnect | exchange | resume more | handler h | delete =>
      exact absurd trivial hlate

/-- **A step keeps the invariant if and only if it is in time.** -/
theorem timedInv_step_iff {t : TimedClient} {a : TimedAction} (h : TimedInv s)
    (hstep : timedStep s a = some t) : TimedInv t ↔ OnTime s a := by
  constructor
  · intro ht
    by_contra hlate
    obtain ⟨g, hmem, hexp, hnone⟩ := out_of_time hstep hlate
    exact ht.none_expired hnone g hmem hexp
  · intro htime
    exact timedInv_step h htime hstep

/-- Every timeout has cancelled its own operation, and so does whichever queued
handler runs next. -/
def TimedClient.CancelsOwn (s : TimedClient) : Prop :=
  (∀ c ∈ s.cancels, c.Own) ∧
    ∀ h t, timedMachine.step s (.handler h) = some t → ∀ c ∈ t.cancels, c.Own

theorem TimedInv.cancelsOwn (h : TimedInv s) : s.CancelsOwn := by
  refine ⟨h.own, ?_⟩
  intro g t hstep
  exact (timedInv_step (a := .handler g) h trivial hstep).own

/-- **TIMEOUTS CANCEL THEIR OWN OPERATIONS, EXACTLY IF all steps are in time.**
Of every run: in all its states the timeouts have cancelled what their timers
were armed for, while it was pending and the object was there, and whichever
timeout runs next does so too, if and only if every step of the run is in
time. -/
theorem timeouts_cancel_own_iff {as : List TimedAction} (hrun : (timedMachine.run as).isSome) :
    (∀ before s, before <+: as → timedMachine.run before = some s → s.CancelsOwn) ↔
      ∀ before a s, before ++ [a] <+: as → timedMachine.run before = some s → OnTime s a := by
  constructor
  · intro hown before a s hbefore hs
    by_contra hlate
    obtain ⟨t, ht⟩ := Machine.exists_run_of_prefix hbefore hrun
    have hstep : timedMachine.step s a = some t := by
      rw [Machine.run_concat, hs] at ht
      exact ht
    -- a timeout that has lost its operation can run next
    obtain ⟨h, hmem, hexp, hnone⟩ := out_of_time hstep hlate
    obtain ⟨u, hu, c, hc, hnot⟩ := misfires hmem hexp hnone
    exact hnot ((hown _ t hbefore ht).2 h u hu c hc)
  · intro htime before s hbefore hs
    have hinv := (Machine.run_invariant_iff (M := timedMachine) timedInv_init
      (fun _ _ _ h hstep => timedInv_step_iff h hstep) hrun).mpr htime
    exact (hinv before s hbefore hs).cancelsOwn

/-- A connect that takes too long is cancelled by its own timeout. -/
theorem timeouts_cancel_own_iff_connect :
    let as : List TimedAction := [.connect, .resolved true, .expire, .handler ⟨1, true⟩]
    (timedMachine.run as).map TimedClient.cancels = some [⟨1, some 1, true⟩] ∧
      ∀ before s, before <+: as → timedMachine.run before = some s → s.CancelsOwn := by
  intro as
  refine ⟨by decide, (timeouts_cancel_own_iff (by decide)).mpr ?_⟩
  intro before a s hbefore hs
  obtain ⟨k, hlt, rfl, ha⟩ := Machine.exists_take_of_prefix hbefore
  have hlen : k < 4 := hlt
  clear hbefore
  interval_cases k
  all_goals
    obtain rfl := Option.some.inj ha
    obtain rfl := Option.some.inj hs
  · trivial
  · trivial
  · exact ⟨.connect, rfl⟩
  · trivial

/-- **A TIMEOUT THAT COMES LATE.**  The connect ends, its timer expires, and the
fiber goes on: `get` writes its request, and the timeout of the connect
cancels the write.  Or the request ends, and the timeout runs on a deleted
object. -/
theorem stale_timeout :
    let late : List TimedAction := [.connect, .resolved true, .complete true, .expire, .resume false]
    (timedMachine.run (late ++ [.exchange, .handler ⟨1, true⟩])).map TimedClient.cancels =
        some [⟨1, some 2, true⟩] ∧
    (timedMachine.run (late ++ [.delete, .handler ⟨1, true⟩])).map TimedClient.cancels =
        some [⟨1, none, false⟩] ∧
    ¬ ∀ s, timedMachine.Reach s → ∀ c ∈ s.cancels, c.Own := by
  intro late
  refine ⟨by decide, by decide, ?_⟩
  intro hall
  obtain ⟨s, hrun⟩ : ∃ s, timedMachine.run (late ++ [.exchange, .handler ⟨1, true⟩]) = some s :=
    ⟨_, rfl⟩
  have hcancels : s.cancels = [⟨1, some 2, true⟩] := by
    have h : (timedMachine.run (late ++ [.exchange, .handler ⟨1, true⟩])).map TimedClient.cancels =
        some [⟨1, some 2, true⟩] := by decide
    rw [hrun] at h
    exact Option.some.inj h
  have hown := hall s (Machine.reach_iff_run.mpr ⟨_, hrun⟩) ⟨1, some 2, true⟩
    (by rw [hcancels]; exact List.mem_singleton_self _)
  exact absurd hown.2 (by decide)

end Petrel
