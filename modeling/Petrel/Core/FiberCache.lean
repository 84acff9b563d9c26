/-
  Petrel.Core.FiberCache — one thread's cache of reusable fibers.

  `run(f)` takes an idle fiber context from `m_cache`, or creates one, stores
  the job in its `func` and notifies it; once shut down, or before the cache
  exists, it starts a plain fiber instead.  Each context's fiber loops

      while (true) { if (!func) cv.wait; if (func) { func(); func = null;
                     m_cache->push_back(self); } else return; }

  The fibers of one thread switch only where they suspend, so the code
  between two suspensions is one function on the thread's state, and the
  running code calls `run`, suspends or finishes its job.

  Main results:
    * `fiber_step`       — cached contexts are exactly the idle ones, a job
      in progress is never overwritten, and at most one job changes its place.
    * `fiber_refines_ledger` — the jobs keep their books.
    * `fiber_cache_runs_once` — the counter, the cache and the jobs agree in
      every reachable state, and the cleanup joins idle contexts only.
-/

import Petrel.Framework.Ledger

namespace Petrel

open Framework

/-! ## §1. The state of the thread. -/

/-- A function passed to `run`, numbered in the order of the calls. -/
abbrev JobId := Nat

/-- A fiber context, numbered in the order of creation. -/
abbrev ContextId := Nat

/-- Where the fiber of a context is in its loop. -/
inductive FiberPos where
  | fresh              -- created and ready, about to enter the loop
  | waiting            -- blocked in `cv.wait`
  | woken              -- notified and ready, about to return from `cv.wait`
  | inJob (j : JobId)  -- inside `func()`, running or suspended there
  | returned           -- has left the loop
  deriving DecidableEq

structure FiberContext where
  func : Option JobId := none
  pos : FiberPos := .fresh
  deriving DecidableEq

/-- A plain detached fiber, made by `run` when there is no cache. -/
inductive DirectPos where
  | absent
  | ready
  | inJob
  | returned
  deriving DecidableEq

/-- Whose code the thread is running. -/
inductive Runner where
  | outside                 -- an io handler, or a fiber that is not of this class
  | context (i : ContextId)
  | direct (j : JobId)
  deriving DecidableEq

/-- How far `register_io_service` and `unregister_io_service` have come. -/
inductive CachePhase where
  | unregistered
  | serving
  | stopping                                     -- `m_stop` is set
  | drained                                      -- the last check found no active context
  | joining (i : ContextId) (todo : List ContextId)  -- the cleanup loop waits for `i`
  | reset
  deriving DecidableEq

/-- The thread-local state.  `fibCnt` counts distinct contexts in memory, so
the counter's width never shows.  `started` records whose execution has begun. -/
structure FiberThread where
  cache : Option (List ContextId) := none
  fibCnt : Nat := 0
  stop : Bool := false
  allocated : Nat := 0
  ctx : ContextId → FiberContext := fun _ => {}
  direct : JobId → DirectPos := fun _ => .absent
  running : Option Runner := none
  phase : CachePhase := .unregistered
  submitted : Nat := 0
  started : List JobId := []

/-! ## §2. The code between two suspensions. -/

def FiberThread.setCtx (s : FiberThread) (i : ContextId) (c : FiberContext) : FiberThread :=
  { s with ctx := Function.update s.ctx i c }

/-- `cv.notify_one` makes the fiber ready if it waits, and is lost otherwise. -/
def FiberContext.notify (c : FiberContext) : FiberContext :=
  { c with pos := if c.pos = .waiting then .woken else c.pos }

/-- `get_fiber`: the context to use, if any. -/
def FiberThread.getFiber (s : FiberThread) : FiberThread × Option ContextId :=
  if s.stop then (s, none)
  else
    match s.cache with
    | none => (s, none)
    | some cache =>
        match cache.getLast? with
        | some i => ({ s with cache := some cache.dropLast }, some i)
        | none =>
            ({ s with allocated := s.allocated + 1, fibCnt := s.fibCnt + 1 }, some s.allocated)

/-- `run(f)` with the job `j`. -/
def FiberThread.run (s : FiberThread) (j : JobId) : FiberThread :=
  match s.getFiber with
  | (t, some i) => t.setCtx i { t.ctx i with func := some j }.notify
  | (t, none) => { t with direct := Function.update t.direct j .ready }

/-- The second test of the loop, passed with a job or left with `return`. -/
def FiberThread.testFunc (s : FiberThread) (i : ContextId) : FiberThread :=
  match (s.ctx i).func with
  | some j =>
      { s.setCtx i { s.ctx i with pos := .inJob j } with
        started := s.started ++ [j], running := some (.context i) }
  | none => s.setCtx i { s.ctx i with pos := .returned }

/-- The head of the loop: wait without a job, else go on. -/
def FiberThread.loopHead (s : FiberThread) (i : ContextId) : FiberThread :=
  match (s.ctx i).func with
  | none => { s.setCtx i { s.ctx i with pos := .waiting } with running := none }
  | some _ => s.testFunc i

/-- The job of context `i` has returned: `func = nullptr`, back into the
cache, and on to the head of the loop. -/
def FiberThread.jobReturned (s : FiberThread) (i : ContextId) : FiberThread :=
  let t := s.setCtx i { s.ctx i with func := none }
  FiberThread.loopHead { t with cache := t.cache.map (· ++ [i]) } i

/-- The next iteration of the cleanup loop, or `m_cache.reset()` at its end.
`join` suspends the io handler. -/
def FiberThread.cleanupNext (s : FiberThread) : List ContextId → FiberThread
  | [] => { s with cache := none, phase := .reset }
  | i :: todo => { s.setCtx i (s.ctx i).notify with phase := .joining i todo, running := none }

inductive FiberAction where
  | outside                      -- switch to an io handler or to another fiber
  | resume (i : ContextId)       -- switch to the fiber of a context
  | resumeDirect (j : JobId)     -- switch to a plain fiber
  | call                         -- the running code calls `run` with a new job
  | suspend                      -- the running code suspends
  | finish                       -- the running job returns
  | register                     -- handler: `m_cache = make_unique`
  | stop                         -- handler: `m_stop = true`
  | check                        -- handler: `m_fib_cnt == m_cache->size()`
  | cleanup                      -- handler: the cleanup loop begins
  | joined                       -- the fiber it waits for has returned
  deriving DecidableEq

def fiberStep (s : FiberThread) : FiberAction → Option FiberThread
  | .outside => if s.running = none then some { s with running := some .outside } else none
  | .resume i =>
      if s.running = none ∧ i < s.allocated then
        match (s.ctx i).pos with
        -- a fiber that has not run yet enters the loop at its head
        | .fresh => some (s.loopHead i)
        -- `cv.wait` returns into the second test of the loop
        | .woken => some (s.testFunc i)
        | .inJob _ => some { s with running := some (.context i) }
        | .waiting | .returned => none
      else none
  | .resumeDirect j =>
      if s.running = none then
        match s.direct j with
        | .ready => some { s with
            direct := Function.update s.direct j .inJob
            started := s.started ++ [j]
            running := some (.direct j) }
        | .inJob => some { s with running := some (.direct j) }
        | .absent | .returned => none
      else none
  | .call =>
      if s.running = none then none
      else some { s.run s.submitted with submitted := s.submitted + 1 }
  | .suspend => if s.running = none then none else some { s with running := none }
  | .finish =>
      match s.running with
      | some (.context i) => some (s.jobReturned i)
      | some (.direct j) => some { s with
          direct := Function.update s.direct j .returned, running := none }
      | _ => none
  | .register =>
      if s.running = some .outside ∧ s.phase = .unregistered then
        some { s with cache := some [], phase := .serving }
      else none
  | .stop =>
      if s.running = some .outside ∧ s.phase = .serving then
        some { s with stop := true, phase := .stopping }
      else none
  | .check =>
      if s.running = some .outside ∧ s.phase = .stopping then
        s.cache.map (fun cache =>
          { s with phase := if s.fibCnt = cache.length then .drained else .stopping })
      else none
  | .cleanup =>
      if s.running = some .outside ∧ s.phase = .drained then s.cache.map s.cleanupNext
      else none
  | .joined =>
      match s.phase with
      | .joining i todo =>
          if s.running = none ∧ (s.ctx i).pos = .returned then some (s.cleanupNext todo) else none
      | _ => none

def fiberMachine : Machine FiberThread FiberAction where
  init := {}
  step := fiberStep

/-! ## §3. The invariant. -/

/-- Jobs may be assigned to contexts. -/
def CachePhase.Active (p : CachePhase) : Prop := p = .serving ∨ p = .stopping

/-- The cache exists and its cleanup has not begun. -/
def CachePhase.Live (p : CachePhase) : Prop := p.Active ∨ p = .drained

/-- The cleanup has begun. -/
def CachePhase.Cleaning (p : CachePhase) : Prop := (∃ i todo, p = .joining i todo) ∨ p = .reset

/-- The fiber is ready to run and has not begun its job. -/
def FiberPos.Ready (p : FiberPos) : Prop := p = .fresh ∨ p = .woken

/-- Where a job can be. -/
inductive JobPlace where
  | started
  | context (i : ContextId)
  | direct
  deriving DecidableEq

/-- Job `j` is at a place: its execution has begun, or the ready fiber of a
context or a ready plain fiber owns it. -/
def FiberThread.At (s : FiberThread) (j : JobId) : JobPlace → Prop
  | .started => j ∈ s.started
  | .context i => (s.ctx i).func = some j ∧ (s.ctx i).pos.Ready
  | .direct => s.direct j = .ready

/-- The contexts that own a job. -/
def FiberThread.owners (s : FiberThread) : Nat :=
  (List.range s.allocated).countP (fun i => (s.ctx i).func.isSome)

/-- A context with a job is ready for it or inside it.  One without a job is
blocked in `cv.wait`, until the cleanup wakes it. -/
def FiberContext.Ok (c : FiberContext) (p : CachePhase) : Prop :=
  match c.func with
  | some j => p.Active ∧ (c.pos.Ready ∨ c.pos = .inJob j)
  | none => c.pos = .waiting ∨ p.Cleaning ∧ (c.pos = .woken ∨ c.pos = .returned)

/-- The cache lists the contexts without a job, each once. -/
def FiberThread.CachesIdle (s : FiberThread) (cache : List ContextId) : Prop :=
  cache.Nodup ∧ ∀ i : Nat, i ∈ cache ↔ i < s.allocated ∧ (s.ctx i).func = none

/-- The running code is in the job it runs for. -/
def FiberThread.InJob (s : FiberThread) : Runner → Prop
  | .outside => True
  | .context i => ∃ j, (s.ctx i).pos = .inJob j
  | .direct j => s.direct j = .inJob

structure FiberInv (s : FiberThread) : Prop where
  fibCnt : s.fibCnt = s.allocated
  blank : ∀ i : Nat, s.allocated ≤ i → s.ctx i = {}
  ctxOk : ∀ i : Nat, i < s.allocated → (s.ctx i).Ok s.phase
  unregistered : s.phase = .unregistered → s.cache = none ∧ s.allocated = 0
  live : s.phase.Live → ∃ cache, s.cache = some cache ∧ s.CachesIdle cache
  stopped : s.phase ≠ .unregistered → s.phase ≠ .serving → s.stop = true
  joins : ∀ i todo, s.phase = .joining i todo → ∀ k ∈ i :: todo, k < s.allocated
  runs : ∀ r, s.running = some r → s.InJob r
  direct : ∀ j : Nat, s.direct j ≠ .absent → j < s.submitted
  jobs : ∃ l, Books FiberThread.At s l ∧ ∀ j : Nat, l j ≠ none ↔ j < s.submitted
  once : s.started.Nodup

/-! ## §4. What a step does with the jobs. -/

/-- The jobs stay where they are, a new one comes to a place, or the one at a
place begins. -/
inductive JobChange (s t : FiberThread) : Prop where
  | stay : t.submitted = s.submitted → t.started = s.started →
      (∀ j p, t.At j p ↔ s.At j p) → JobChange s t
  | submit (p : JobPlace) : t.submitted = s.submitted + 1 → t.started = s.started →
      (∀ j q, j ≠ s.submitted → (t.At j q ↔ s.At j q)) → (∀ q, t.At s.submitted q ↔ q = p) →
      JobChange s t
  | begins (j : JobId) (p : JobPlace) : t.submitted = s.submitted →
      t.started = s.started ++ [j] → s.At j p → p ≠ .started →
      (∀ k q, k ≠ j → (t.At k q ↔ s.At k q)) → (∀ q, t.At j q ↔ q = .started) → JobChange s t

/-- The ledger has the jobs that were submitted. -/
def FiberThread.JobBooks (s : FiberThread) (l : Ledger JobId JobPlace) : Prop :=
  Books FiberThread.At s l ∧ ∀ j : Nat, l j ≠ none ↔ j < s.submitted

/-- **A step is one entry in the books at most**, and no entry loses a job. -/
theorem JobChange.entries {s t : FiberThread} (h : JobChange s t) {l : Ledger JobId JobPlace}
    (hl : s.JobBooks l) :
    ∃ es l', (∀ e ∈ es, e.Keeps) ∧ Ledger.machine.runFrom l es = some l' ∧ t.JobBooks l' := by
  obtain ⟨hl, hsub⟩ := hl
  cases h with
  | stay hsubmitted _ hat =>
      refine ⟨[], l, (fun _ he => nomatch he), rfl, hl.stay hat, ?_⟩
      rw [hsubmitted]
      exact hsub
  | submit p hsubmitted _ hframe hp =>
      -- the number of the new job has never been used
      have hnew : l s.submitted = none := by
        by_contra hn
        exact Nat.lt_irrefl _ ((hsub _).mp hn)
      refine ⟨[.issue s.submitted p], Function.update l s.submitted (some p), ?_, ?_,
        hl.put hframe hp, ?_⟩
      · exact fun e he => List.mem_singleton.mp he ▸ trivial
      · rw [Machine.runFrom_cons, step_issue hnew]
        rfl
      · intro k
        rw [hsubmitted]
        by_cases hk : k = s.submitted
        · subst hk
          simp
        · rw [Function.update_of_ne hk, hsub k]
          omega
  | begins j p hsubmitted _ hat _ hframe hp =>
      have hj : l j = some p := (hl j p).mp hat
      refine ⟨[.move j p .started], Function.update l j (some .started), ?_, ?_,
        hl.put hframe hp, ?_⟩
      · exact fun e he => List.mem_singleton.mp he ▸ trivial
      · rw [Machine.runFrom_cons, step_move hj]
        rfl
      · intro k
        rw [hsubmitted]
        by_cases hk : k = j
        · subst hk
          rw [Function.update_self, ← hsub k, hj]
          simp
        · rw [Function.update_of_ne hk]
          exact hsub k

theorem JobChange.jobs {s t : FiberThread} (h : JobChange s t) (hI : FiberInv s) :
    ∃ l, Books FiberThread.At t l ∧ ∀ j : Nat, l j ≠ none ↔ j < t.submitted := by
  obtain ⟨l, hl⟩ := hI.jobs
  obtain ⟨-, l', -, -, hl'⟩ := h.entries hl
  exact ⟨l', hl'⟩

/-- A job begins only once: it was at a ready fiber, and so nowhere else. -/
theorem JobChange.once {s t : FiberThread} (h : JobChange s t) (hI : FiberInv s) :
    t.started.Nodup := by
  cases h with
  | stay _ hstarted _ => exact hstarted ▸ hI.once
  | submit p _ hstarted _ _ => exact hstarted ▸ hI.once
  | begins j p _ hstarted hat hne _ _ =>
      obtain ⟨l, hl, -⟩ := hI.jobs
      have hj : j ∉ s.started := fun hs => hne (hl.unique hat (show s.At j .started from hs))
      rw [hstarted, List.nodup_append_comm]
      exact List.nodup_cons.mpr ⟨hj, hI.once⟩

/-- No job has the next number yet. -/
theorem FiberInv.not_at_submitted {s : FiberThread} (hI : FiberInv s) (p : JobPlace) :
    ¬ s.At s.submitted p := by
  intro hp
  obtain ⟨l, hl, hsub⟩ := hI.jobs
  exact Nat.lt_irrefl _ ((hsub _).mp ((hl.at_iff s.submitted).mp ⟨p, hp⟩))

/-- A context whose job is not waiting to start is no place for a job. -/
def FiberContext.Quiet (c : FiberContext) : Prop := ∀ j, c.func = some j → ¬ c.pos.Ready

/-- Changing a quiet context into a quiet one moves no job. -/
theorem quiet_change {s t : FiberThread} {i : ContextId} {c : FiberContext}
    (hctx : t.ctx = Function.update s.ctx i c) (hdirect : t.direct = s.direct)
    (hstarted : t.started = s.started) (hsubmitted : t.submitted = s.submitted)
    (hs : (s.ctx i).Quiet) (hc : c.Quiet) : JobChange s t := by
  refine .stay hsubmitted hstarted fun j p => ?_
  cases p with
  | started => show j ∈ t.started ↔ _; rw [hstarted]; exact Iff.rfl
  | direct => show t.direct j = .ready ↔ _; rw [hdirect]; exact Iff.rfl
  | context k =>
      show (t.ctx k).func = some j ∧ (t.ctx k).pos.Ready ↔ (s.ctx k).func = some j ∧ (s.ctx k).pos.Ready
      rw [hctx]
      by_cases hk : k = i
      · subst hk
        rw [Function.update_self]
        exact ⟨fun h => absurd h.2 (hc j h.1), fun h => absurd h.2 (hs j h.1)⟩
      · rw [Function.update_of_ne hk]

/-- A context without a job is no place for one. -/
theorem idle_change {s t : FiberThread} {i : ContextId} {c : FiberContext}
    (hctx : t.ctx = Function.update s.ctx i c) (hdirect : t.direct = s.direct)
    (hstarted : t.started = s.started) (hsubmitted : t.submitted = s.submitted)
    (hs : (s.ctx i).func = none) (hc : c.func = none) : JobChange s t := by
  have hquiet : ∀ d : FiberContext, d.func = none → d.Quiet := by
    intro d hd j hj
    rw [hd] at hj
    cases hj
  exact quiet_change hctx hdirect hstarted hsubmitted (hquiet _ hs) (hquiet _ hc)

/-- A job assigned to an idle context comes to its place. -/
theorem assign_change {s t : FiberThread} {i : ContextId} {c : FiberContext}
    (hsubmitted : t.submitted = s.submitted + 1) (hctx : t.ctx = Function.update s.ctx i c)
    (hdirect : t.direct = s.direct) (hstarted : t.started = s.started)
    (hidle : (s.ctx i).func = none) (hfunc : c.func = some s.submitted) (hpos : c.pos.Ready)
    (hnew : ∀ p, ¬ s.At s.submitted p) : JobChange s t := by
  refine .submit (.context i) hsubmitted hstarted ?_ ?_
  -- the places of the other jobs are as before
  · intro k p hk
    cases p with
    | started => show k ∈ t.started ↔ _; rw [hstarted]; exact Iff.rfl
    | direct => show t.direct k = .ready ↔ _; rw [hdirect]; exact Iff.rfl
    | context m =>
        show (t.ctx m).func = some k ∧ (t.ctx m).pos.Ready ↔ (s.ctx m).func = some k ∧ _
        rw [hctx]
        by_cases hm : m = i
        · subst hm
          rw [Function.update_self, hfunc, hidle]
          simp [Ne.symm hk]
        · rw [Function.update_of_ne hm]
  -- and the new one is at the place of this context only
  · intro p
    cases p with
    | started =>
        have : ¬ s.submitted ∈ t.started := by
          rw [hstarted]
          exact hnew .started
        exact ⟨fun hp => absurd hp this, fun hp => by cases hp⟩
    | direct =>
        have : ¬ t.direct s.submitted = .ready := by
          rw [hdirect]
          exact hnew .direct
        exact ⟨fun hp => absurd hp this, fun hp => by cases hp⟩
    | context m =>
        show (t.ctx m).func = some s.submitted ∧ (t.ctx m).pos.Ready ↔ _
        rw [hctx]
        by_cases hm : m = i
        · subst hm
          rw [Function.update_self]
          exact ⟨fun _ => rfl, fun _ => ⟨hfunc, hpos⟩⟩
        · rw [Function.update_of_ne hm]
          exact ⟨fun hp => absurd hp (hnew (.context m)), fun hp => absurd (JobPlace.context.inj hp) hm⟩

/-- A job whose execution begins moves from its ready fiber to `started`. -/
theorem begin_change {s t : FiberThread} (hI : FiberInv s) {j : JobId} {p : JobPlace}
    (hp : s.At j p) (hne : p ≠ .started) (hsubmitted : t.submitted = s.submitted)
    (hstarted : t.started = s.started ++ [j]) (hgone : ¬ t.At j p)
    (hframe : ∀ k q, q ≠ .started → (k ≠ j ∨ q ≠ p) → (t.At k q ↔ s.At k q)) :
    JobChange s t := by
  obtain ⟨l, hl, -⟩ := hI.jobs
  refine .begins j p hsubmitted hstarted hp hne ?_ ?_
  · intro k q hk
    by_cases hq : q = .started
    · subst hq
      show k ∈ t.started ↔ k ∈ s.started
      rw [hstarted]
      simp [hk]
    -- elsewhere `k` is where it was
    · exact hframe k q hq (.inl hk)
  · intro q
    by_cases hq : q = .started
    · subst hq
      show j ∈ t.started ↔ _
      rw [hstarted]
      simp
    -- a ready place of `j` was its own, `p`, which it has left
    · refine ⟨fun hat => ?_, fun e => absurd e hq⟩
      by_cases hqp : q = p
      · subst hqp
        exact absurd hat hgone
      · exact absurd (hl.unique ((hframe j q hq (.inr hqp)).mp hat) hp) hqp

/-- What a step leads to: the invariant, and a change of the jobs. -/
structure FiberNext (s t : FiberThread) : Prop where
  jobs : JobChange s t
  inv : FiberInv t

/-! ## §5. Each action keeps the invariant. -/

theorem job_books_init : fiberMachine.init.JobBooks (fun _ => none) := by
  refine ⟨?_, ?_⟩
  · intro j p
    refine ⟨fun h => ?_, fun h => by cases h⟩
    cases p with
    | started => cases h
    | context i => cases h.1
    | direct => cases h
  · intro j
    exact ⟨fun h => absurd rfl h, fun h => absurd h (Nat.not_lt_zero j)⟩

theorem fiber_inv_init : FiberInv fiberMachine.init where
  fibCnt := rfl
  blank := fun _ _ => rfl
  ctxOk := fun i hi => absurd hi (Nat.not_lt_zero i)
  unregistered := fun _ => ⟨rfl, rfl⟩
  live := by
    rintro ((h | h) | h) <;> cases h
  stopped := fun h => absurd rfl h
  joins := fun _ _ h => by cases h
  runs := fun _ h => by cases h
  direct := fun _ h => absurd rfl h
  jobs := ⟨_, job_books_init⟩
  once := List.nodup_nil

/-- Switching to and from a runner that is in its job changes nothing else. -/
theorem FiberInv.setRunning {s : FiberThread} (hI : FiberInv s) {r : Option Runner}
    (hr : ∀ q, r = some q → s.InJob q) :
    FiberNext s { s with running := r } :=
  ⟨.stay rfl rfl (fun _ _ => Iff.rfl), hI.fibCnt, hI.blank, hI.ctxOk, hI.unregistered, hI.live,
    hI.stopped, hI.joins, hr, hI.direct, hI.jobs, hI.once⟩

/-- The three answers of `get_fiber`. -/
theorem getFiber_cases (s : FiberThread) :
    ((s.stop = true ∨ s.cache = none) ∧ s.getFiber = (s, none)) ∨
    (s.stop = false ∧ ∃ cache i, s.cache = some (cache ++ [i]) ∧
      s.getFiber = ({ s with cache := some cache }, some i)) ∨
    (s.stop = false ∧ s.cache = some [] ∧ s.getFiber =
      ({ s with allocated := s.allocated + 1, fibCnt := s.fibCnt + 1 }, some s.allocated)) := by
  unfold FiberThread.getFiber
  by_cases hstop : s.stop = true
  · exact .inl ⟨.inl hstop, by rw [if_pos hstop]⟩
  · have hstop' : s.stop = false := by simpa using hstop
    simp only [hstop', Bool.false_eq_true, if_false]
    cases hc : s.cache with
    | none => exact .inl ⟨.inr rfl, rfl⟩
    | some cache =>
        rcases List.eq_nil_or_concat cache with rfl | ⟨init, i, rfl⟩
        · exact .inr (.inr ⟨trivial, rfl, rfl⟩)
        · exact .inr (.inl ⟨trivial, init, i, by simp, by simp⟩)

theorem FiberContext.Ok.waiting {c : FiberContext} {p : CachePhase} (h : c.Ok p)
    (hfunc : c.func = none) (hp : ¬ p.Cleaning) : c.pos = .waiting := by
  unfold FiberContext.Ok at h
  rw [hfunc] at h
  rcases h with h | ⟨h, -⟩
  · exact h
  · exact absurd h hp

theorem CachePhase.Live.notCleaning {p : CachePhase} (h : p.Live) : ¬ p.Cleaning := by
  rintro (⟨i, todo, rfl⟩ | rfl) <;> rcases h with (h | h) | h <;> cases h

/-- A phase in which `get_fiber` uses contexts. -/
theorem FiberInv.serving {s : FiberThread} (hI : FiberInv s) (hstop : s.stop = false)
    {cache : List ContextId} (hc : s.cache = some cache) : s.phase = .serving := by
  by_contra hp
  have hun : s.phase ≠ .unregistered := by
    intro hu
    rw [(hI.unregistered hu).1] at hc
    cases hc
  rw [hI.stopped hun hp] at hstop
  cases hstop

/-- A new job for the context that `get_fiber` has chosen, an idle one or the
next in memory. -/
theorem FiberInv.assign {s : FiberThread} (hI : FiberInv s) (hserving : s.phase = .serving)
    {i n m : Nat} {c : FiberContext} {cache : List ContextId} (hm : m = n)
    (hidle : (s.ctx i).func = none) (hfunc : c.func = some s.submitted) (hpos : c.pos.Ready)
    (hn : ∀ k : Nat, k < n ↔ k < s.allocated ∨ k = i) (hnodup : cache.Nodup)
    (hcache : ∀ k : Nat, k ∈ cache ↔ k < s.allocated ∧ (s.ctx k).func = none ∧ k ≠ i) :
    FiberNext s { s.setCtx i c with
      cache := some cache, allocated := n, fibCnt := m, submitted := s.submitted + 1 } := by
  have hjobs : JobChange s { s.setCtx i c with
      cache := some cache, allocated := n, fibCnt := m, submitted := s.submitted + 1 } :=
    assign_change rfl rfl rfl rfl hidle hfunc hpos hI.not_at_submitted
  have hother : ∀ k, k ≠ i → (s.setCtx i c).ctx k = s.ctx k := fun k hk => Function.update_of_ne hk ..
  have hself : (s.setCtx i c).ctx i = c := Function.update_self ..
  refine ⟨hjobs, hm, ?_, ?_, ?_, fun _ => ⟨cache, rfl, hnodup, ?_⟩, ?_, ?_, ?_,
    fun j hj => Nat.lt_succ_of_lt (hI.direct j hj), hjobs.jobs hI, hjobs.once hI⟩
  · intro k hk
    have hk' := (hn k).not.mp (Nat.not_lt.mpr hk)
    have hki : k ≠ i := by omega
    show (s.setCtx i c).ctx k = {}
    rw [hother k hki]
    exact hI.blank k (by omega)
  · intro k hk
    show ((s.setCtx i c).ctx k).Ok s.phase
    by_cases hki : k = i
    · subst hki
      rw [hself]
      unfold FiberContext.Ok
      rw [hfunc]
      exact ⟨.inl hserving, .inl hpos⟩
    · have hk' := (hn k).mp hk
      rw [hother k hki]
      exact hI.ctxOk k (by omega)
  · intro hu
    rw [show s.phase = .unregistered from hu] at hserving
    cases hserving
  · intro k
    show k ∈ cache ↔ k < n ∧ ((s.setCtx i c).ctx k).func = none
    rw [hcache k, hn k]
    by_cases hki : k = i
    · subst hki
      rw [hself, hfunc]
      simp
    · rw [hother k hki]
      simp [hki]
  · intro _ hns
    exact absurd hserving hns
  · intro k todo hj
    rw [show s.phase = .joining k todo from hj] at hserving
    cases hserving
  · intro r hr
    have hin := hI.runs r hr
    cases r with
    | outside => trivial
    | direct j => exact hin
    | context k =>
        obtain ⟨j, hj⟩ := hin
        have hki : k ≠ i := by
          rintro rfl
          -- an idle context is not inside a job
          rcases Nat.lt_or_ge k s.allocated with ha | ha
          · have := (hI.ctxOk k ha).waiting hidle (CachePhase.Live.notCleaning (.inl (.inl hserving)))
            rw [this] at hj
            cases hj
          · rw [hI.blank k ha] at hj
            cases hj
        exact ⟨j, by rw [hother k hki]; exact hj⟩

/-- A job without a cache gets a fiber of its own. -/
theorem FiberInv.submitDirect {s : FiberThread} (hI : FiberInv s) :
    FiberNext s { s with
      direct := Function.update s.direct s.submitted .ready, submitted := s.submitted + 1 } := by
  have hnew := hI.not_at_submitted
  have hjobs : JobChange s { s with
      direct := Function.update s.direct s.submitted .ready, submitted := s.submitted + 1 } := by
    refine .submit .direct rfl rfl ?_ ?_
    · intro k p hk
      cases p with
      | direct =>
          show Function.update s.direct s.submitted .ready k = .ready ↔ s.direct k = .ready
          rw [Function.update_of_ne hk]
      | started => exact Iff.rfl
      | context i => exact Iff.rfl
    · intro p
      cases p with
      | direct =>
          show Function.update s.direct s.submitted .ready s.submitted = .ready ↔ _
          simp
      | started => exact ⟨fun h => absurd h (hnew .started), fun h => by cases h⟩
      | context i => exact ⟨fun h => absurd h (hnew (.context i)), fun h => by cases h⟩
  -- only the books, the plain fibers and the running one see a new plain fiber
  refine ⟨hjobs, hI.fibCnt, hI.blank, hI.ctxOk, hI.unregistered, hI.live, hI.stopped, hI.joins, ?_,
    ?_, hjobs.jobs hI, hjobs.once hI⟩
  · intro r hr
    have hin := hI.runs r hr
    cases r with
    | outside => trivial
    | context k => exact hin
    | direct j =>
        have hj : s.direct j = .inJob := hin
        have hne : j ≠ s.submitted := Nat.ne_of_lt (hI.direct j (by rw [hj]; simp))
        show Function.update s.direct s.submitted .ready j = .inJob
        rw [Function.update_of_ne hne]
        exact hj
  · intro j hj
    show j < s.submitted + 1
    by_cases hne : j = s.submitted
    · omega
    · have hj' : Function.update s.direct s.submitted .ready j ≠ .absent := hj
      rw [Function.update_of_ne hne] at hj'
      have := hI.direct j hj'
      omega

/-- The context at the back of the cache is idle, and takes the job. -/
theorem FiberInv.submitCached {s : FiberThread} (hI : FiberInv s) (hserving : s.phase = .serving)
    {cache : List ContextId} {i : ContextId} (hc : s.cache = some (cache ++ [i])) :
    FiberNext s { (s.setCtx i (FiberContext.notify { s.ctx i with func := some s.submitted })) with
      cache := some cache, submitted := s.submitted + 1 } := by
  obtain ⟨cache', hc', hnodup, hmem⟩ := hI.live (.inl (.inl hserving))
  obtain rfl : cache ++ [i] = cache' := by
    rw [hc] at hc'
    exact Option.some.inj hc'
  obtain ⟨ha, hidle⟩ := (hmem i).mp (by simp)
  -- before the cleanup an idle context waits, so `notify_one` wakes it
  have hwait := (hI.ctxOk i ha).waiting hidle (CachePhase.Live.notCleaning (.inl (.inl hserving)))
  have hni : i ∉ cache ∧ cache.Nodup := by
    rw [List.nodup_append_comm] at hnodup
    exact List.nodup_cons.mp hnodup
  have hnotify : FiberContext.notify { s.ctx i with func := some s.submitted }
      = { func := some s.submitted, pos := .woken } := by
    simp [FiberContext.notify, hwait]
  rw [hnotify]
  have hsame : ∀ k : Nat, k < s.allocated ↔ k < s.allocated ∨ k = i := by
    intro k
    omega
  refine hI.assign hserving hI.fibCnt hidle rfl (.inr rfl) hsame hni.2 ?_
  intro k
  have hk := hmem k
  rw [List.mem_append, List.mem_singleton] at hk
  by_cases hki : k = i
  · subst hki
    simp [hni.1]
  · simp only [hki, or_false] at hk
    rw [hk]
    simp [hki]

/-- The cache is empty, and the next context in memory takes the job. -/
theorem FiberInv.submitFresh {s : FiberThread} (hI : FiberInv s) (hserving : s.phase = .serving)
    (hc : s.cache = some []) :
    FiberNext s { (s.setCtx s.allocated
        (FiberContext.notify { s.ctx s.allocated with func := some s.submitted })) with
      allocated := s.allocated + 1, fibCnt := s.fibCnt + 1, submitted := s.submitted + 1 } := by
  obtain ⟨cache', hc', hnodup, hmem⟩ := hI.live (.inl (.inl hserving))
  obtain rfl : ([] : List ContextId) = cache' := by
    rw [hc] at hc'
    exact Option.some.inj hc'
  -- the fiber of a new context has not run yet, and `notify_one` is lost
  have hblank := hI.blank s.allocated le_rfl
  have hnotify : FiberContext.notify { s.ctx s.allocated with func := some s.submitted }
      = { func := some s.submitted, pos := .fresh } := by
    rw [hblank]
    rfl
  rw [hnotify]
  have := hI.assign (n := s.allocated + 1) hserving (congrArg (· + 1) hI.fibCnt)
    (by rw [hblank]) rfl (.inl rfl) (by omega) hnodup (c := { func := some s.submitted, pos := .fresh }) (by
      intro k
      have hk := hmem k
      simp only [List.not_mem_nil, false_iff, not_and] at hk ⊢
      exact fun ha hf => absurd hf (hk ha))
  rw [← hc] at this
  exact this

/-- **A call of `run` keeps the invariant**: the job goes to an idle context, a
new one, or a plain fiber. -/
theorem FiberInv.call {s : FiberThread} (hI : FiberInv s) :
    FiberNext s { s.run s.submitted with submitted := s.submitted + 1 } := by
  unfold FiberThread.run
  rcases getFiber_cases s with ⟨-, hget⟩ | ⟨hstop, cache, i, hc, hget⟩ | ⟨hstop, hc, hget⟩
  · rw [hget]
    exact hI.submitDirect
  · rw [hget]
    exact hI.submitCached (hI.serving hstop hc) hc
  · rw [hget]
    exact hI.submitFresh (hI.serving hstop hc) hc

/-- Changing an allocated context leaves the free memory blank. -/
theorem FiberInv.blank_setCtx {s : FiberThread} (hI : FiberInv s) {i : Nat} (ha : i < s.allocated)
    (c : FiberContext) (k : Nat) (hk : s.allocated ≤ k) : (s.setCtx i c).ctx k = {} := by
  have hki : k ≠ i := by omega
  show Function.update s.ctx i c k = {}
  rw [Function.update_of_ne hki]
  exact hI.blank k hk

/-- Changing one context to a consistent one leaves all of them consistent. -/
theorem FiberInv.ctxOk_setCtx {s : FiberThread} (hI : FiberInv s) {i : Nat} {c : FiberContext}
    (hc : c.Ok s.phase) (k : Nat) (hk : k < s.allocated) : ((s.setCtx i c).ctx k).Ok s.phase := by
  show (Function.update s.ctx i c k).Ok s.phase
  by_cases hki : k = i
  · subst hki
    rw [Function.update_self]
    exact hc
  · rw [Function.update_of_ne hki]
    exact hI.ctxOk k hk

theorem testFunc_of_job {s : FiberThread} {i : ContextId} {j : JobId}
    (h : (s.ctx i).func = some j) : s.testFunc i = { s.setCtx i { s.ctx i with pos := .inJob j } with
      started := s.started ++ [j], running := some (.context i) } := by
  unfold FiberThread.testFunc
  rw [h]

theorem testFunc_of_none {s : FiberThread} {i : ContextId} (h : (s.ctx i).func = none) :
    s.testFunc i = s.setCtx i { s.ctx i with pos := .returned } := by
  unfold FiberThread.testFunc
  rw [h]

theorem loopHead_of_job {s : FiberThread} {i : ContextId} {j : JobId}
    (h : (s.ctx i).func = some j) : s.loopHead i = s.testFunc i := by
  unfold FiberThread.loopHead
  rw [h]

/-- **A ready fiber with a job begins it.** -/
theorem FiberInv.begin {s : FiberThread} (hI : FiberInv s) {i : Nat} (ha : i < s.allocated)
    {j : JobId} (hfunc : (s.ctx i).func = some j) (hready : (s.ctx i).pos.Ready) :
    FiberNext s (s.testFunc i) := by
  rw [testFunc_of_job hfunc]
  -- `j` moves from the place of its context to `started`
  have hat : s.At j (.context i) := ⟨hfunc, hready⟩
  have hfuncs : ∀ k, (Function.update s.ctx i { s.ctx i with pos := .inJob j } k).func
      = (s.ctx k).func := by
    intro k
    by_cases hk : k = i
    · subst hk
      rw [Function.update_self]
    · rw [Function.update_of_ne hk]
  have hjobs := begin_change (t := { s.setCtx i { s.ctx i with pos := .inJob j } with
      started := s.started ++ [j], running := some (.context i) }) hI hat (by simp) rfl rfl
    (by
      rintro ⟨-, h⟩
      simp [FiberThread.setCtx, FiberPos.Ready] at h)
    (by
      intro k q hq hne
      cases q with
      | started => exact absurd rfl hq
      | direct => exact Iff.rfl
      | context m =>
          show (Function.update s.ctx i _ m).func = some k ∧ (Function.update s.ctx i _ m).pos.Ready ↔ _
          by_cases hm : m = i
          · -- the only job of this context is `j`
            subst hm
            have hk : k ≠ j := hne.resolve_right (by simp)
            rw [hfuncs, hfunc]
            exact ⟨fun h => absurd (Option.some.inj h.1).symm hk,
              fun h => absurd (Option.some.inj (hfunc.symm.trans h.1)).symm hk⟩
          · rw [Function.update_of_ne hm]
            exact Iff.rfl)
  have hok : ({ s.ctx i with pos := .inJob j } : FiberContext).Ok s.phase := by
    have := hI.ctxOk i ha
    unfold FiberContext.Ok at this ⊢
    simp only [hfunc] at this ⊢
    exact ⟨this.1, .inr trivial⟩
  refine ⟨hjobs, hI.fibCnt, hI.blank_setCtx ha _, hI.ctxOk_setCtx hok, hI.unregistered, ?_,
    hI.stopped, hI.joins, ?_, hI.direct, hjobs.jobs hI, hjobs.once hI⟩
  · intro hlive
    obtain ⟨cache, hc, hnodup, hmem⟩ := hI.live hlive
    refine ⟨cache, hc, hnodup, fun k => ?_⟩
    show k ∈ cache ↔ k < s.allocated ∧ (Function.update s.ctx i _ k).func = none
    rw [hfuncs]
    exact hmem k
  · intro r hr
    obtain rfl : Runner.context i = r := Option.some.inj hr
    refine ⟨j, ?_⟩
    show (Function.update s.ctx i _ i).pos = _
    rw [Function.update_self]

/-- A context without a job changes its position in the cleanup. -/
theorem FiberInv.moveIdle {s : FiberThread} (hI : FiberInv s) {i : Nat} {p : FiberPos}
    (hcl : s.phase.Cleaning) (hp : p = .waiting ∨ p = .woken ∨ p = .returned)
    (hfunc : (s.ctx i).func = none) (ha : i < s.allocated)
    (hrun : s.running ≠ some (.context i)) :
    FiberNext s (s.setCtx i { s.ctx i with pos := p }) := by
  have hjobs : JobChange s (s.setCtx i { s.ctx i with pos := p }) :=
    idle_change rfl rfl rfl rfl hfunc hfunc
  have hok : ({ s.ctx i with pos := p } : FiberContext).Ok s.phase := by
    unfold FiberContext.Ok
    simp only [hfunc]
    exact hp.imp_right fun h => ⟨hcl, h⟩
  refine ⟨hjobs, hI.fibCnt, hI.blank_setCtx ha _, hI.ctxOk_setCtx hok, hI.unregistered,
    fun h => absurd hcl h.notCleaning, hI.stopped, hI.joins, ?_, hI.direct, hjobs.jobs hI,
    hjobs.once hI⟩
  intro r hr
  have hin := hI.runs r hr
  cases r with
  | outside => trivial
  | direct j => exact hin
  | context k =>
      have hki : k ≠ i := fun e => hrun (e ▸ hr)
      show ∃ j, (Function.update s.ctx i _ k).pos = _
      rw [Function.update_of_ne hki]
      exact hin

/-- **A context whose job has returned goes back into the cache.** -/
theorem FiberInv.finish {s : FiberThread} (hI : FiberInv s) {i : Nat}
    (hrun : s.running = some (.context i)) : FiberNext s (s.jobReturned i) := by
  obtain ⟨j, hj⟩ : ∃ j, (s.ctx i).pos = .inJob j := hI.runs _ hrun
  have ha : i < s.allocated := by
    by_contra hge
    rw [hI.blank i (Nat.not_lt.mp hge)] at hj
    cases hj
  -- inside a job the context still has its `func`, so there is a cache
  have hok := hI.ctxOk i ha
  unfold FiberContext.Ok at hok
  cases hfunc : (s.ctx i).func with
  | none =>
      simp only [hfunc, hj] at hok
      rcases hok with h | ⟨-, h | h⟩ <;> cases h
  | some j' =>
      simp only [hfunc] at hok
      obtain ⟨hactive, -⟩ := hok
      obtain ⟨cache, hc, hnodup, hmem⟩ := hI.live (.inl hactive)
      have hni : i ∉ cache := by
        intro h
        rw [((hmem i).mp h).2] at hfunc
        cases hfunc
      have hstate : s.jobReturned i = { s.setCtx i { func := none, pos := .waiting } with
          cache := some (cache ++ [i]), running := none } := by
        simp [FiberThread.jobReturned, FiberThread.loopHead, FiberThread.setCtx, hc]
      have hquiet : (s.ctx i).Quiet := by
        intro k _ hready
        rw [hj] at hready
        rcases hready with h | h <;> cases h
      have hjobs : JobChange s { s.setCtx i { func := none, pos := .waiting } with
          cache := some (cache ++ [i]), running := none } :=
        quiet_change rfl rfl rfl rfl hquiet (by intro _ h; cases h)
      rw [hstate]
      refine ⟨hjobs, hI.fibCnt, hI.blank_setCtx ha _, hI.ctxOk_setCtx (.inl rfl), ?_,
        fun _ => ⟨_, rfl, ?_, ?_⟩, hI.stopped, hI.joins, (by intro _ h; cases h), hI.direct,
        hjobs.jobs hI, hjobs.once hI⟩
      · intro hu
        rw [(hI.unregistered hu).1] at hc
        cases hc
      · rw [List.nodup_append_comm]
        exact List.nodup_cons.mpr ⟨hni, hnodup⟩
      · intro k
        show k ∈ cache ++ [i] ↔ k < s.allocated ∧ (Function.update s.ctx i _ k).func = none
        by_cases hki : k = i
        · subst hki
          simp [ha]
        · rw [Function.update_of_ne hki, List.mem_append, List.mem_singleton, ← hmem k]
          simp [hki]

theorem directLt_update {s : FiberThread} (hI : FiberInv s) {j : Nat} (hj : j < s.submitted)
    (p : DirectPos) (k : Nat) (hk : Function.update s.direct j p k ≠ .absent) : k < s.submitted := by
  by_cases hkj : k = j
  · omega
  · rw [Function.update_of_ne hkj] at hk
    exact hI.direct k hk

/-- A plain fiber begins its job. -/
theorem FiberInv.beginDirect {s : FiberThread} (hI : FiberInv s) {j : JobId}
    (hready : s.direct j = .ready) :
    FiberNext s { s with direct := Function.update s.direct j .inJob, started := s.started ++ [j],
                         running := some (.direct j) } := by
  have hat : s.At j .direct := hready
  have hjobs := begin_change (t := { s with
      direct := Function.update s.direct j .inJob, started := s.started ++ [j],
      running := some (.direct j) }) hI hat (by simp) rfl rfl
    (by
      show ¬ Function.update s.direct j .inJob j = .ready
      simp)
    (by
      intro k q hq hne
      cases q with
      | started => exact absurd rfl hq
      | context m => exact Iff.rfl
      | direct =>
          have hk : k ≠ j := hne.resolve_right (by simp)
          show Function.update s.direct j .inJob k = .ready ↔ _
          rw [Function.update_of_ne hk]
          exact Iff.rfl)
  have hj : j < s.submitted := hI.direct j (by rw [hready]; simp)
  refine ⟨hjobs, hI.fibCnt, hI.blank, hI.ctxOk, hI.unregistered, hI.live, hI.stopped, hI.joins, ?_,
    directLt_update hI hj _, hjobs.jobs hI, hjobs.once hI⟩
  intro r hr
  obtain rfl : Runner.direct j = r := Option.some.inj hr
  show Function.update s.direct j .inJob j = .inJob
  rw [Function.update_self]

theorem FiberInv.finishDirect {s : FiberThread} (hI : FiberInv s) {j : JobId}
    (hj : s.direct j = .inJob) :
    FiberNext s { s with direct := Function.update s.direct j .returned, running := none } := by
  have hjobs : JobChange s
      { s with direct := Function.update s.direct j .returned, running := none } := by
    refine .stay rfl rfl fun k q => ?_
    cases q with
    | started => exact Iff.rfl
    | context m => exact Iff.rfl
    | direct =>
        show Function.update s.direct j .returned k = .ready ↔ s.direct k = .ready
        by_cases hk : k = j
        · subst hk
          simp [hj]
        · rw [Function.update_of_ne hk]
  exact ⟨hjobs, hI.fibCnt, hI.blank, hI.ctxOk, hI.unregistered, hI.live, hI.stopped, hI.joins,
    (by intro _ h; cases h), directLt_update hI (hI.direct j (by rw [hj]; simp)) _,
    hjobs.jobs hI, hjobs.once hI⟩

/-! ## §6. The shutdown. -/

theorem FiberContext.Ok.mono {c : FiberContext} {p q : CachePhase} (h : c.Ok p)
    (hactive : p.Active → q.Active) (hcl : p.Cleaning → q.Cleaning) : c.Ok q := by
  unfold FiberContext.Ok at h ⊢
  cases hfunc : c.func with
  | some j =>
      simp only [hfunc] at h ⊢
      exact ⟨hactive h.1, h.2⟩
  | none =>
      simp only [hfunc] at h ⊢
      exact h.imp_right (And.imp_left hcl)

theorem FiberContext.Ok.idle {c : FiberContext} {p : CachePhase} (h : c.Ok p) (hp : ¬ p.Active) :
    c.func = none := by
  unfold FiberContext.Ok at h
  cases hfunc : c.func with
  | none => rfl
  | some j =>
      simp only [hfunc] at h
      exact absurd h.1 hp

/-- **The contexts are the cached ones and the owners.** -/
theorem length_add_owners {s : FiberThread} {cache : List ContextId} (h : s.CachesIdle cache) :
    cache.length + s.owners = s.allocated := by
  obtain ⟨hnodup, hmem⟩ := h
  -- the cache lists the contexts without a job, each of them once
  have hperm : cache.Perm ((List.range s.allocated).filter (fun i => (s.ctx i).func.isNone)) := by
    refine (List.perm_ext_iff_of_nodup hnodup (List.nodup_range.filter _)).mpr fun k => ?_
    rw [hmem k]
    simp
  have hsplit := List.length_eq_countP_add_countP (fun i => (s.ctx i).func.isNone)
    (l := List.range s.allocated)
  rw [List.length_range] at hsplit
  have howners : s.owners
      = (List.range s.allocated).countP (fun i => ¬ (s.ctx i).func.isNone) := by
    unfold FiberThread.owners
    congr 1
    funext i
    cases (s.ctx i).func <;> rfl
  rw [hperm.length_eq, ← List.countP_eq_length_filter, howners]
  exact hsplit.symm

theorem owners_eq_zero {s : FiberThread} (h : s.owners = 0) (i : Nat) (hi : i < s.allocated) :
    (s.ctx i).func = none := by
  have := List.countP_eq_zero.mp h i (List.mem_range.mpr hi)
  simpa using this

/-- A check moves between the phases before the cleanup. -/
theorem FiberInv.checked {s : FiberThread} (hI : FiberInv s) (hlive : s.phase.Live)
    (hstop : s.stop = true) {p : CachePhase} (hp : p.Live)
    (hidle : p.Active ∨ ∀ k : Nat, k < s.allocated → (s.ctx k).func = none) :
    FiberNext s { s with phase := p } := by
  refine ⟨.stay rfl rfl (fun _ _ => Iff.rfl), hI.fibCnt, hI.blank, ?_, ?_, fun _ => hI.live hlive,
    fun _ _ => hstop, ?_, hI.runs, hI.direct, hI.jobs, hI.once⟩
  · intro k hk
    have hok := hI.ctxOk k hk
    rcases hidle with h | h
    · exact hok.mono (fun _ => h) (fun hcl => absurd hcl hlive.notCleaning)
    · have := hok.waiting (h k hk) hlive.notCleaning
      show (s.ctx k).Ok p
      unfold FiberContext.Ok
      simp only [h k hk]
      exact .inl this
  · rintro (hu : p = .unregistered)
    subst hu
    rcases hp with (h | h) | h <;> cases h
  · rintro i todo (hj : p = .joining i todo)
    subst hj
    rcases hp with (h | h) | h <;> cases h

/-- The cleanup loop goes on: it wakes the next context, or drops the cache. -/
theorem FiberInv.cleanupNext {s : FiberThread} (hI : FiberInv s) {todo : List ContextId}
    (hactive : ¬ s.phase.Active) (hstop : s.stop = true) (hrun : ∀ r, s.running = some r → s.InJob r)
    (htodo : ∀ k ∈ todo, k < s.allocated) : FiberNext s (s.cleanupNext todo) := by
  have hidle : ∀ k : Nat, k < s.allocated → (s.ctx k).func = none :=
    fun k hk => (hI.ctxOk k hk).idle hactive
  -- entering a cleanup phase keeps the contexts consistent
  have hphase : ∀ (p : CachePhase) (c : Option (List ContextId)) (r : Option Runner), p.Cleaning →
      (∀ q, r = some q → s.InJob q) → (∀ i rest, p = .joining i rest → i :: rest = todo) →
      FiberInv { s with phase := p, cache := c, running := r } := by
    intro p c r hp hr hj
    refine ⟨hI.fibCnt, hI.blank, ?_, ?_, fun h => absurd hp h.notCleaning, fun _ _ => hstop, ?_,
      hr, hI.direct, hI.jobs, hI.once⟩
    · intro k hk
      exact (hI.ctxOk k hk).mono (fun h => absurd h hactive) (fun _ => hp)
    · rintro (hu : p = .unregistered)
      subst hu
      rcases hp with ⟨_, _, h⟩ | h <;> cases h
    · intro i rest hjoin k hk
      exact htodo k (hj i rest hjoin ▸ hk)
  cases todo with
  | nil =>
      exact ⟨.stay rfl rfl (fun _ _ => Iff.rfl),
        hphase .reset none s.running (.inr rfl) hrun (by intro _ _ h; cases h)⟩
  | cons i todo =>
      have ha : i < s.allocated := htodo i List.mem_cons_self
      have hI' := hphase (.joining i todo) s.cache none (.inl ⟨i, todo, rfl⟩) (by simp)
        (by intro k rest h; cases h; rfl)
      have hok := hI'.ctxOk i ha
      unfold FiberContext.Ok at hok
      simp only [hidle i ha] at hok
      have hpos : (s.ctx i).notify.pos = .waiting ∨ (s.ctx i).notify.pos = .woken ∨
          (s.ctx i).notify.pos = .returned := by
        unfold FiberContext.notify
        rcases hok with h | ⟨-, h | h⟩ <;> simp [h]
      have hmoved := hI'.moveIdle (.inl ⟨i, todo, rfl⟩) hpos (hidle i ha) ha (by simp)
      exact ⟨idle_change rfl rfl rfl rfl (hidle i ha) (hidle i ha), hmoved.inv⟩

/-- A context that is resumed tests its function, goes on in the loop or in its
job. -/
theorem FiberInv.resumeContext {s t : FiberThread} (hI : FiberInv s) {i : Nat}
    (h : fiberStep s (.resume i) = some t) : FiberNext s t := by
  by_cases hr : s.running = none ∧ i < s.allocated
  · simp only [fiberStep, hr, and_self, if_true] at h
    obtain ⟨hnone, ha⟩ := hr
    have hok := hI.ctxOk i ha
    unfold FiberContext.Ok at hok
    cases hpos : (s.ctx i).pos with
    | fresh =>
        simp only [hpos, Option.some.injEq] at h
        cases hfunc : (s.ctx i).func with
        | none =>
            -- a context without a job is past its start
            simp [hfunc, hpos] at hok
        | some j =>
            rw [← h, loopHead_of_job hfunc]
            exact hI.begin ha hfunc (.inl hpos)
    | woken =>
        simp only [hpos, Option.some.injEq] at h
        cases hfunc : (s.ctx i).func with
        | none =>
            simp only [hfunc, hpos] at hok
            have hcl : s.phase.Cleaning := by
              simpa using hok
            rw [← h, testFunc_of_none hfunc]
            exact hI.moveIdle hcl (.inr (.inr rfl)) hfunc ha (by simp [hnone])
        | some j =>
            rw [← h]
            exact hI.begin ha hfunc (.inr hpos)
    | inJob j =>
        simp only [hpos, Option.some.injEq] at h
        subst h
        refine hI.setRunning fun r hr => ?_
        obtain rfl : Runner.context i = r := Option.some.inj hr
        exact ⟨j, hpos⟩
    | waiting => simp [hpos] at h
    | returned => simp [hpos] at h
  · simp only [fiberStep, hr, if_false] at h
    cases h

/-- A thread that stops is drained when all contexts are cached. -/
theorem FiberInv.check {s t : FiberThread} (hI : FiberInv s) (h : fiberStep s .check = some t) :
    FiberNext s t := by
  by_cases hr : s.running = some .outside ∧ s.phase = .stopping
  · simp only [fiberStep, hr, and_self, if_true] at h
    obtain ⟨cache, hc, rfl⟩ := Option.map_eq_some_iff.mp h
    have hlive : s.phase.Live := .inl (.inr hr.2)
    have hstop : s.stop = true := hI.stopped (by simp [hr.2]) (by simp [hr.2])
    have hcheck : ∀ p, p.Live → _ → FiberNext s { s with phase := p } :=
      fun p => hI.checked hlive hstop
    rw [hr.1] at hcheck
    by_cases heq : s.fibCnt = cache.length
    · simp only [heq, if_true]
      rw [← heq]
      refine hcheck .drained (.inr rfl) (.inr ?_)
      -- as many contexts are cached as there are, so none owns a job
      obtain ⟨cache', hc', hidle⟩ := hI.live hlive
      obtain rfl : cache = cache' := by
        rw [hc] at hc'
        exact Option.some.inj hc'
      have hlen := length_add_owners hidle
      have hcnt := hI.fibCnt
      exact owners_eq_zero (by omega)
    · simp only [heq, if_false]
      exact hcheck .stopping (.inl (.inr rfl)) (.inl (.inr rfl))
  · simp only [fiberStep, hr, if_false] at h
    cases h

/-- **What every action leads to.** -/
theorem fiber_step (s : FiberThread) (a : FiberAction) (t : FiberThread) (hI : FiberInv s)
    (h : fiberStep s a = some t) : FiberNext s t := by
  cases a with
  | outside =>
      by_cases hr : s.running = none
      · simp only [fiberStep, hr, if_true, Option.some.injEq] at h
        subst h
        exact hI.setRunning (by intro r hr; cases hr; trivial)
      · simp [fiberStep, hr] at h
  | resume i => exact hI.resumeContext h
  | resumeDirect j =>
      by_cases hr : s.running = none
      · simp only [fiberStep, hr, if_true] at h
        cases hpos : s.direct j with
        | ready =>
            simp only [hpos, Option.some.injEq] at h
            subst h
            exact hI.beginDirect hpos
        | inJob =>
            simp only [hpos, Option.some.injEq] at h
            subst h
            refine hI.setRunning fun r hr => ?_
            obtain rfl : Runner.direct j = r := Option.some.inj hr
            exact hpos
        | absent => simp [hpos] at h
        | returned => simp [hpos] at h
      · simp [fiberStep, hr] at h
  | call =>
      by_cases hr : s.running = none
      · simp [fiberStep, hr] at h
      · simp only [fiberStep, hr, if_false, Option.some.injEq] at h
        subst h
        exact hI.call
  | suspend =>
      by_cases hr : s.running = none
      · simp [fiberStep, hr] at h
      · simp only [fiberStep, hr, if_false, Option.some.injEq] at h
        subst h
        exact hI.setRunning (by simp)
  | finish =>
      unfold fiberStep at h
      cases hr : s.running with
      | none => simp [hr] at h
      | some r =>
          cases r with
          | outside => simp [hr] at h
          | context i =>
              simp only [hr, Option.some.injEq] at h
              subst h
              exact hI.finish hr
          | direct j =>
              simp only [hr, Option.some.injEq] at h
              subst h
              exact hI.finishDirect (hI.runs _ hr)
  | register =>
      by_cases hr : s.running = some .outside ∧ s.phase = .unregistered
      · simp only [fiberStep, hr, and_self, if_true, Option.some.injEq] at h
        subst h
        obtain ⟨-, ha⟩ := hI.unregistered hr.2
        refine ⟨.stay rfl rfl (fun _ _ => Iff.rfl), hI.fibCnt, hI.blank, ?_, by simp,
          fun _ => ⟨[], rfl, List.nodup_nil, ?_⟩, by simp, by simp,
          (by intro r h; cases h; trivial), hI.direct, hI.jobs, hI.once⟩
        · intro k hk
          rw [show s.allocated = 0 from ha] at hk
          omega
        · intro k
          simp [ha]
      · simp only [fiberStep, hr, if_false] at h
        cases h
  | stop =>
      by_cases hr : s.running = some .outside ∧ s.phase = .serving
      · simp only [fiberStep, hr, and_self, if_true, Option.some.injEq] at h
        subst h
        refine ⟨.stay rfl rfl (fun _ _ => Iff.rfl), hI.fibCnt, hI.blank, ?_, by simp,
          fun _ => hI.live (.inl (.inl hr.2)), by simp, by simp,
          (by intro r h; cases h; trivial), hI.direct, hI.jobs, hI.once⟩
        intro k hk
        refine (hI.ctxOk k hk).mono (fun _ => .inr rfl) fun hcl => ?_
        rw [hr.2] at hcl
        rcases hcl with ⟨_, _, h⟩ | h <;> cases h
      · simp only [fiberStep, hr, if_false] at h
        cases h
  | check => exact hI.check h
  | cleanup =>
      by_cases hr : s.running = some .outside ∧ s.phase = .drained
      · have h' := h
        unfold fiberStep at h'
        rw [if_pos hr] at h'
        obtain ⟨cache, hc, rfl⟩ := Option.map_eq_some_iff.mp h'
        obtain ⟨cache', hc', -, hmem⟩ := hI.live (.inr hr.2)
        obtain rfl : cache = cache' := by
          rw [hc] at hc'
          exact Option.some.inj hc'
        refine hI.cleanupNext ?_ (hI.stopped (by simp [hr.2]) (by simp [hr.2])) hI.runs
          (fun k hk => ((hmem k).mp hk).1)
        rw [hr.2]
        rintro (h | h) <;> cases h
      · simp only [fiberStep, hr, if_false] at h
        cases h
  | joined =>
      unfold fiberStep at h
      cases hp : s.phase with
      | joining i todo =>
          simp only [hp] at h
          by_cases hr : s.running = none ∧ (s.ctx i).pos = .returned
          · rw [if_pos hr, Option.some.injEq] at h
            rw [← h]
            refine hI.cleanupNext ?_ (hI.stopped (by simp [hp]) (by simp [hp])) hI.runs
              (fun k hk => hI.joins i todo hp k (List.mem_cons_of_mem _ hk))
            rw [hp]
            rintro (h | h) <;> cases h
          · simp [hr] at h
      | _ => simp [hp] at h

theorem fiber_inv_reach {s : FiberThread} (h : fiberMachine.Reach s) : FiberInv s :=
  h.invariant fiber_inv_init (fun s a t hI _ hs => (fiber_step s a t hI hs).inv)

/-! ## §7. The books of the jobs. -/

/-- **The thread refines the ledger of its jobs.** -/
theorem fiber_refines_ledger :
    Machine.Refines fiberMachine Ledger.machine (fun _ _ => True) FiberThread.JobBooks where
  init := job_books_init
  step := by
    intro s t a l hs hl _ ht
    obtain ⟨es, l', -, hrun, hl'⟩ := (fiber_step s a t (fiber_inv_reach hs) ht).jobs.entries hl
    exact ⟨es, l', hrun, hl'⟩

/-- Whatever happens after a job was submitted, it is at exactly one place. -/
theorem fiber_keeps_jobs {s t : FiberThread} (h : fiberMachine.Reach s) {as : List FiberAction}
    (hrun : fiberMachine.runFrom s as = some t) {j : JobId} {p : JobPlace} (hat : s.At j p) :
    ∃! q, t.At j q := by
  have hI := fiber_inv_reach h
  obtain ⟨l, hl⟩ := hI.jobs
  have hkept : ∃ q, t.At j q := by
    refine Books.kept (I := fun s l => FiberInv s ∧ s.JobBooks l) (fun _ _ h => h.2.1) ?_
      ⟨hI, hl⟩ hrun hat
    rintro s a t l ⟨hI, hl⟩ ht
    have hnext := fiber_step s a t hI ht
    obtain ⟨es, l', hkeeps, hes, hl'⟩ := hnext.jobs.entries hl
    exact ⟨es, l', hkeeps, hes, hnext.inv, hl'⟩
  obtain ⟨q, hq⟩ := hkept
  obtain ⟨l', hl', -⟩ := (fiber_inv_reach (h.runFrom hrun)).jobs
  exact ⟨q, hq, fun q' hq' => hl'.unique hq' hq⟩

/-! ## §8. The fiber cache runs every job once. -/

/-- A ready fiber owns the job: the fiber of a context, or a plain one. -/
def FiberThread.Owns (s : FiberThread) (p : JobPlace) (j : JobId) : Prop :=
  p ≠ .started ∧ s.At j p

/-- **EVERY JOB RUNS AT MOST ONCE AND NONE IS LOST.**  From the creation of the
cache to its cleanup the counter is the cached contexts plus the owners, the
cached contexts wait without a job, the others are ready for their job or in
it.  In every reachable state no job is begun twice, a job not begun is owned
by exactly one ready fiber, and the cleanup joins contexts without a job. -/
theorem fiber_cache_runs_once (s : FiberThread) (h : fiberMachine.Reach s) :
    (s.phase.Live → ∃ cache, s.cache = some cache ∧
      s.fibCnt = cache.length + s.owners ∧ cache.Nodup ∧
      (∀ i ∈ cache, (s.ctx i).func = none ∧ (s.ctx i).pos = .waiting) ∧
      ∀ i j, (s.ctx i).func = some j →
        i ∉ cache ∧ ((s.ctx i).pos.Ready ∨ (s.ctx i).pos = .inJob j)) ∧
    s.started.Nodup ∧
    (∀ j : Nat, j < s.submitted → j ∉ s.started → ∃! p, s.Owns p j) ∧
    (∀ i todo, s.phase = .joining i todo → (s.ctx i).func = none) := by
  have hI := fiber_inv_reach h
  refine ⟨?_, hI.once, ?_, ?_⟩
  · intro hlive
    obtain ⟨cache, hc, hidle⟩ := hI.live hlive
    have hlen := length_add_owners hidle
    have hcnt := hI.fibCnt
    refine ⟨cache, hc, by omega, hidle.1, ?_, ?_⟩
    · intro i hi
      obtain ⟨ha, hfunc⟩ := (hidle.2 i).mp hi
      exact ⟨hfunc, (hI.ctxOk i ha).waiting hfunc hlive.notCleaning⟩
    · intro i j hfunc
      have ha : i < s.allocated := by
        by_contra hge
        rw [hI.blank i (Nat.not_lt.mp hge)] at hfunc
        cases hfunc
      refine ⟨fun hi => ?_, ?_⟩
      · rw [((hidle.2 i).mp hi).2] at hfunc
        cases hfunc
      · have hok := hI.ctxOk i ha
        unfold FiberContext.Ok at hok
        simp only [hfunc] at hok
        exact hok.2
  · intro j hj hns
    obtain ⟨l, hl, hsub⟩ := hI.jobs
    obtain ⟨p, hp⟩ := Option.ne_none_iff_exists'.mp ((hsub j).mpr hj)
    have hat : s.At j p := (hl j p).mpr hp
    refine ⟨p, ⟨?_, hat⟩, fun q hq => hl.unique hq.2 hat⟩
    rintro rfl
    exact hns hat
  · intro i todo hp
    refine (hI.ctxOk i (hI.joins i todo hp i List.mem_cons_self)).idle ?_
    rw [hp]
    rintro (h | h) <;> cases h

/-- A job that calls `run` from inside: the outer job suspends, the inner one
runs in a second context, and both contexts come back to the cache. -/
theorem fiber_cache_runs_nested :
    ∃ s, fiberMachine.Reach s ∧ s.started = [0, 1] ∧ s.started.Nodup ∧
      ∃ cache, s.cache = some cache ∧ s.fibCnt = cache.length + s.owners := by
  obtain ⟨s, hs, hp⟩ := fiberMachine.exists_reach_of_run
    [.outside, .register, .call, .suspend, .resume 0, .call, .suspend, .resume 1, .finish,
      .resume 0, .finish] (fun s => s.started = [0, 1] ∧ s.phase = .serving) (by decide)
  have hall := fiber_cache_runs_once s hs
  obtain ⟨cache, hc, hcnt, -⟩ := hall.1 (.inl (.inl hp.2))
  exact ⟨s, hs, hp.1, hall.2.1, cache, hc, hcnt⟩

end Petrel
