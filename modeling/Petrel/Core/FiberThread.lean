/-
  Petrel.Core.FiberThread — the fibers of a thread and their operations.

  A thread has one active context and a queue of ready ones, from which
  `fiber_sched_algorithm` picks in order.  `bfa::yield` makes an asio function
  return its result to the fiber that called it: the `async_result` of the
  call holds a completion flag, the error code and the value; `get` suspends
  the fiber unless the flag is set, and the completion handler sets the flag
  and wakes the fiber unless it is the active one.  `yield[ec]` binds a variable
  of the fiber, which then takes the error code in place of the own member;
  without one a failure is thrown.

  Fibers also block on other things (`park`), and which operation completes
  when is left open.

  Main results:
    * `SchedOk.setReady` — linking a context that cannot run.
    * `SchedOk.switch`   — leaving the active context and picking the next.
-/

import Petrel.Framework.Machine

namespace Petrel

open Framework

/-! ## §1. The thread and its operations. -/

/-- A context, numbered in the order of creation; 0 runs the io service. -/
abbrev FiberId := Nat

/-- An asynchronous operation, numbered in the order of initiation. -/
abbrev OpId := Nat

/-- An error code; 0 is success. -/
abbrev ErrorCode := Int

/-- `async_result` with its `yield_completion`, and the handler's `ctx_` and
`yt_`: `bound` is the variable of the fiber that takes the error code. -/
structure AsyncResult (Val : Type) where
  ctx : FiberId
  bound : Option Nat
  completed : Bool := false
  ec : ErrorCode := 0
  value : Val

/-- Where the code of a fiber is. -/
inductive FiberPc where
  | running
  | initiated (op : OpId)   -- has the `async_result`, about to call `get`
  | waiting (op : OpId)     -- has called `suspend` in `yield_completion::wait`
  | parked                  -- suspended on something else
  | ended
  deriving DecidableEq

/-- What `get` has returned or thrown in a fiber, and its bound variable then. -/
structure OpResult (Val : Type) where
  fiber : FiberId
  op : OpId
  outcome : Except ErrorCode Val
  var : Option ErrorCode

/-- A thread of fibers; `active` is none while the dispatcher runs.  `misused`
is set where a context that is linked already would be linked once more, or
picked while active, which the assertions rule out. -/
structure YieldThread (Val : Type) where
  fibers : Nat := 1
  pc : FiberId → FiberPc := fun _ => .running
  active : Option FiberId := some 0
  ready : List FiberId := []
  ops : List (AsyncResult Val) := []
  vars : FiberId → Nat → ErrorCode := fun _ _ => 0
  misused : Bool := false
  completions : List (OpId × ErrorCode × Val) := []
  results : List (OpResult Val) := []
  awakened : List FiberId := []
  picked : List FiberId := []

/-- What the active fiber does, and the completion of an operation. -/
inductive YieldAction (Val : Type) where
  | spawn
  | initiate (bound : Option Nat)
  | get
  | resumed                                          -- goes on behind `suspend`
  | complete (op : OpId) (ec : ErrorCode) (value : Val)
  | yield
  | park
  | wake (f : FiberId)
  | exit
  | dispatch

/-! ## §2. The steps. -/

section Steps

variable {Val : Type}

namespace YieldThread

/-- The context can run: it is active or linked into the ready queue. -/
def Runnable (s : YieldThread Val) (f : FiberId) : Prop := s.active = some f ∨ f ∈ s.ready

instance (s : YieldThread Val) (f : FiberId) : Decidable (s.Runnable f) :=
  inferInstanceAs (Decidable (_ ∨ _))

def setPc (s : YieldThread Val) (f : FiberId) (pc : FiberPc) : YieldThread Val :=
  { s with pc := Function.update s.pc f pc }

/-- `context::set_ready` and `awakened`. -/
def setReady (s : YieldThread Val) (f : FiberId) : YieldThread Val :=
  { s with
    ready := s.ready ++ [f]
    awakened := s.awakened ++ [f]
    misused := s.misused || decide (s.Runnable f) }

/-- `pick_next`; without a ready fiber the dispatcher runs. -/
def pickNext (s : YieldThread Val) : YieldThread Val :=
  match s.ready with
  | [] => { s with active := none }
  | ctx :: ready =>
      { s with
        active := some ctx
        ready := ready
        picked := s.picked ++ [ctx]
        misused := s.misused || decide (s.active = some ctx) }

/-- `*yt_.ec_ = ec`, `completed_ = true` and `*value_ = t`. -/
def store (s : YieldThread Val) (op : OpId) (r : AsyncResult Val) (ec : ErrorCode)
    (value : Val) : YieldThread Val :=
  let r := { r with value := value, completed := true }
  let s := { s with completions := s.completions ++ [(op, ec, value)] }
  match r.bound with
  | some x =>
      { s with
        ops := s.ops.set op r
        vars := Function.update s.vars r.ctx (Function.update (s.vars r.ctx) x ec) }
  | none => { s with ops := s.ops.set op { r with ec := ec } }

/-- `yield_handler::operator()`; a fiber that is still active must not be woken. -/
def complete (s : YieldThread Val) (op : OpId) (r : AsyncResult Val) (ec : ErrorCode)
    (value : Val) : YieldThread Val :=
  let s := s.store op r ec value
  if s.active ≠ some r.ctx then s.setReady r.ctx else s

/-- The end of `get`: the own error code is thrown. -/
def finish (s : YieldThread Val) (f : FiberId) (op : OpId) (r : AsyncResult Val) :
    YieldThread Val :=
  { s.setPc f .running with
    results := s.results ++
      [⟨f, op, if r.ec ≠ 0 then .error r.ec else .ok r.value, r.bound.map (s.vars f)⟩] }

end YieldThread

/-- One action of a thread. -/
def yieldStep [Inhabited Val] (s : YieldThread Val) : YieldAction Val → Option (YieldThread Val)
  | .dispatch =>
      match s.active, s.ready with
      | none, _ :: _ => some s.pickNext
      | _, _ => none
  | .complete op ec value =>
      match s.ops[op]? with
      -- asio calls a handler once
      | some r => if r.completed then none else some (s.complete op r ec value)
      | none => none
  | .wake f =>
      if s.pc f = .parked then some ((s.setPc f .running).setReady f) else none
  | .spawn =>
      match s.active with
      | some f => if s.pc f = .running then
          some { s.setReady s.fibers with fibers := s.fibers + 1 } else none
      | none => none
  | .initiate bound =>
      match s.active with
      | some f => if s.pc f = .running then
          some { s.setPc f (.initiated s.ops.length) with
            ops := s.ops ++ [{ ctx := f, bound := bound, value := default }] } else none
      | none => none
  | .get =>
      match s.active with
      | some f =>
          match s.pc f with
          | .initiated op =>
              match s.ops[op]? with
              | some r =>
                  -- `wait` does not suspend if the flag is set
                  if r.completed then some (s.finish f op r)
                  else some (s.setPc f (.waiting op)).pickNext
              | none => none
          | _ => none
      | none => none
  | .resumed =>
      match s.active with
      | some f =>
          match s.pc f with
          | .waiting op => (s.ops[op]?).map (s.finish f op)
          | _ => none
      | none => none
  | .yield =>
      match s.active with
      | some f => if s.pc f = .running then some (s.pickNext.setReady f) else none
      | none => none
  | .park =>
      match s.active with
      | some f => if s.pc f = .running then some (s.setPc f .parked).pickNext else none
      | none => none
  | .exit =>
      match s.active with
      | some f => if s.pc f = .running then some (s.setPc f .ended).pickNext else none
      | none => none

/-- A thread with its main fiber. -/
def yieldMachine (Val : Type) [Inhabited Val] : Machine (YieldThread Val) (YieldAction Val) where
  init := {}
  step := yieldStep

end Steps

/-! ## §3. What must hold of a thread. -/

section Spec

variable {Val : Type}

/-- The operation whose result the fiber has still to take. -/
def FiberPc.awaits : FiberPc → Option OpId
  | .initiated op | .waiting op => some op
  | _ => none

/-- The contexts and the ready queue.  `transit` is a fiber that is neither
active nor linked at the moment, but will be. -/
structure SchedOk (s : YieldThread Val) (transit : Option FiberId) : Prop where
  nodup : s.ready.Nodup
  idle : ∀ f, s.active = some f → f ∉ s.ready
  known : ∀ f, s.Runnable f → f < s.fibers
  initiated : ∀ f op, s.pc f = .initiated op → s.active = some f
  running : ∀ f < s.fibers, s.pc f = .running → s.Runnable f ∨ transit = some f
  asleep : ∀ f, s.pc f = .parked ∨ s.pc f = .ended → ¬ s.Runnable f
  fresh : ∀ f, s.fibers ≤ f → s.pc f = .running
  sound : s.misused = false
  order : s.awakened = s.picked ++ s.ready

/-- The operations and the fibers that wait for them. -/
structure OpsOk (s : YieldThread Val) : Prop where
  owner : ∀ f op, (s.pc f).awaits = some op → ∃ r, s.ops[op]? = some r ∧ r.ctx = f
  waiting : ∀ f op r, s.pc f = .waiting op → s.ops[op]? = some r →
    (s.Runnable f ↔ r.completed = true)
  pending : ∀ op r, s.ops[op]? = some r → r.completed = false → (s.pc r.ctx).awaits = some op
  empty : ∀ (op : OpId) (r : AsyncResult Val), s.ops[op]? = some r → r.completed = false → r.ec = 0

/-- What `get` makes of a completion. -/
def outcomeOf (bound : Option Nat) (ec : ErrorCode) (value : Val) : Except ErrorCode Val :=
  match bound with
  | some _ => .ok value
  | none => if ec ≠ 0 then .error ec else .ok value

/-- The result is that of the completion, and a bound variable has its code. -/
def OpResult.Of (res : OpResult Val) (bound : Option Nat) (ec : ErrorCode) (value : Val) : Prop :=
  res.outcome = outcomeOf bound ec value ∧ res.var = bound.map (fun _ => ec)

/-- What an operation stores is what it was completed with. -/
structure Stored (s : YieldThread Val) (op : OpId) (r : AsyncResult Val) (ec : ErrorCode)
    (value : Val) : Prop where
  value : r.value = value
  own : r.ec = if r.bound = none then ec else 0
  var : (s.pc r.ctx).awaits = some op → ∀ x, r.bound = some x → s.vars r.ctx x = ec

/-- The results that were taken. -/
structure ResultsOk (s : YieldThread Val) : Prop where
  logged : ∀ op r, s.ops[op]? = some r → r.completed = true →
    ∃ ec value, (op, ec, value) ∈ s.completions ∧ Stored s op r ec value
  completed : ∀ c ∈ s.completions, ∃ r, s.ops[c.1]? = some r ∧ r.completed = true
  distinct : (s.completions.map Prod.fst).Nodup
  taken : ∀ res ∈ s.results, ∃ r ec value, s.ops[res.op]? = some r ∧ r.completed = true ∧
    r.ctx = res.fiber ∧ (s.pc r.ctx).awaits ≠ some res.op ∧ (res.op, ec, value) ∈ s.completions ∧
    res.Of r.bound ec value
  once : (s.results.map OpResult.op).Nodup
  all : ∀ op r, s.ops[op]? = some r → r.completed = true →
    (s.pc r.ctx).awaits = some op ∨ op ∈ s.results.map OpResult.op

/-- The invariant of a thread. -/
structure ThreadOk (s : YieldThread Val) : Prop where
  sched : SchedOk s none
  ops : OpsOk s
  results : ResultsOk s

end Spec

/-! ## §4. The ready queue. -/

section Queue

variable {Val : Type} {s : YieldThread Val} {transit : Option FiberId}

@[simp] theorem setReady_runnable (f g : FiberId) :
    (s.setReady f).Runnable g ↔ s.Runnable g ∨ g = f := by
  unfold YieldThread.Runnable YieldThread.setReady
  rw [List.mem_append, List.mem_singleton, or_assoc]

@[simp] theorem setPc_runnable (f g : FiberId) (pc : FiberPc) :
    (s.setPc f pc).Runnable g ↔ s.Runnable g := Iff.rfl

@[simp] theorem setPc_pc (f g : FiberId) (pc : FiberPc) :
    (s.setPc f pc).pc g = if g = f then pc else s.pc g := by
  unfold YieldThread.setPc
  exact Function.update_apply ..

@[simp] theorem pickNext_pc (f : FiberId) : s.pickNext.pc f = s.pc f := by
  unfold YieldThread.pickNext
  split <;> rfl

@[simp] theorem pickNext_fibers : s.pickNext.fibers = s.fibers := by
  unfold YieldThread.pickNext
  split <;> rfl

@[simp] theorem pickNext_ops : s.pickNext.ops = s.ops := by
  unfold YieldThread.pickNext
  split <;> rfl

/-- What can run behind a switch is what was ready. -/
@[simp] theorem pickNext_runnable (g : FiberId) : s.pickNext.Runnable g ↔ g ∈ s.ready := by
  unfold YieldThread.pickNext YieldThread.Runnable
  cases hready : s.ready with
  | nil => simp
  | cons c rest => simp [eq_comm]

/-- **A context that cannot run is linked.** -/
theorem SchedOk.setReady (h : SchedOk s transit) {f : FiberId} (hf : ¬ s.Runnable f)
    (hlt : f < s.fibers) (hpc : s.pc f ≠ .parked ∧ s.pc f ≠ .ended)
    (htransit : ∀ g, transit = some g → g = f) : SchedOk (s.setReady f) none where
  nodup := by
    refine List.nodup_append.mpr ⟨h.nodup, List.nodup_singleton f, ?_⟩
    intro a ha b hb heq
    rw [heq, List.mem_singleton.mp hb] at ha
    exact hf (.inr ha)
  idle := by
    intro g hg hmem
    rcases List.mem_append.mp hmem with hmem | hmem
    · exact h.idle g hg hmem
    · rw [List.mem_singleton.mp hmem] at hg
      exact hf (.inl hg)
  known := by
    intro g hg
    rcases (setReady_runnable f g).mp hg with hg | rfl
    · exact h.known g hg
    · exact hlt
  initiated := h.initiated
  running := by
    intro g hlt hg
    rw [setReady_runnable]
    rcases h.running g hlt hg with hrun | hrun
    · exact .inl (.inl hrun)
    · exact .inl (.inr (htransit g hrun))
  asleep := by
    intro g hg hrun
    rcases (setReady_runnable f g).mp hrun with hrun | rfl
    · exact h.asleep g hg hrun
    · rcases hg with hg | hg
      · exact hpc.1 hg
      · exact hpc.2 hg
  fresh := h.fresh
  sound := by
    show (s.misused || decide (s.Runnable f)) = false
    rw [h.sound, decide_eq_false hf]
    rfl
  order := by
    show s.awakened ++ [f] = s.picked ++ (s.ready ++ [f])
    rw [h.order, List.append_assoc]

/-- **The active context leaves and the next one is picked**; `pc` is where the
code of the fibers is then. -/
theorem SchedOk.switch (h : SchedOk s none) {pc : FiberId → FiberPc}
    (hother : ∀ f, s.active ≠ some f → pc f = s.pc f)
    (hactive : ∀ f, s.active = some f → (∀ op, pc f ≠ .initiated op) ∧
      (pc f = .running → transit = some f)) :
    SchedOk ({ s with pc := pc } : YieldThread Val).pickNext transit := by
  -- a linked context is not the active one
  have hready : ∀ f ∈ s.ready, pc f = s.pc f :=
    fun f hf => hother f (fun hactive => h.idle f hactive hf)
  constructor
  case nodup =>
    unfold YieldThread.pickNext
    cases hr : s.ready with
    | nil => simp
    | cons c rest => exact (List.nodup_cons.mp (hr ▸ h.nodup)).2
  case idle =>
    unfold YieldThread.pickNext
    cases hr : s.ready with
    | nil => simp
    | cons c rest =>
        intro f hf
        obtain rfl := Option.some.inj hf
        exact (List.nodup_cons.mp (hr ▸ h.nodup)).1
  case known =>
    intro f hf
    rw [pickNext_runnable] at hf
    rw [pickNext_fibers]
    exact h.known f (.inr hf)
  case initiated =>
    intro f op hf
    rw [pickNext_pc] at hf
    by_cases hact : s.active = some f
    · exact absurd hf ((hactive f hact).1 op)
    · exact absurd (h.initiated f op ((hother f hact).symm.trans hf)) hact
  case running =>
    intro f hlt hf
    rw [pickNext_pc] at hf
    rw [pickNext_fibers] at hlt
    rw [pickNext_runnable]
    by_cases hact : s.active = some f
    · exact .inr ((hactive f hact).2 hf)
    · rcases h.running f hlt ((hother f hact).symm.trans hf) with (hrun | hrun) | hrun
      · exact absurd hrun hact
      · exact .inl hrun
      · cases hrun
  case asleep =>
    intro f hf hrun
    rw [pickNext_pc] at hf
    rw [pickNext_runnable] at hrun
    exact h.asleep f (by rw [← hready f hrun]; exact hf) (.inr hrun)
  case fresh =>
    intro f hf
    rw [pickNext_fibers] at hf
    rw [pickNext_pc]
    refine (hother f ?_).trans (h.fresh f hf)
    exact fun hact => absurd (h.known f (.inl hact)) (Nat.not_lt.mpr hf)
  case sound =>
    unfold YieldThread.pickNext
    cases hr : s.ready with
    | nil => exact h.sound
    | cons c rest =>
        have hne : s.active ≠ some c := fun hc => h.idle c hc (hr ▸ List.mem_cons_self)
        simp [h.sound, hne]
  case order =>
    unfold YieldThread.pickNext
    cases hr : s.ready with
    | nil =>
        simp only
        rw [h.order, hr]
    | cons c rest => simp [h.order, hr]

/-- The active fiber goes on with other code. -/
theorem SchedOk.stay (h : SchedOk s none) {f : FiberId} (hf : s.active = some f) {pc : FiberPc}
    (hpc : pc ≠ .parked ∧ pc ≠ .ended) : SchedOk (s.setPc f pc) none where
  nodup := h.nodup
  idle := h.idle
  known := h.known
  initiated := by
    intro g op hg
    rw [setPc_pc] at hg
    by_cases hgf : g = f
    · rw [hgf]
      exact hf
    · rw [if_neg hgf] at hg
      exact h.initiated g op hg
  running := by
    intro g hlt hg
    rw [setPc_pc] at hg
    by_cases hgf : g = f
    · rw [hgf]
      exact .inl (.inl hf)
    · rw [if_neg hgf] at hg
      exact h.running g hlt hg
  asleep := by
    intro g hg hrun
    rw [setPc_pc] at hg
    by_cases hgf : g = f
    · rw [if_pos hgf] at hg
      rcases hg with hg | hg
      · exact hpc.1 hg
      · exact hpc.2 hg
    · rw [if_neg hgf] at hg
      exact h.asleep g hg hrun
  fresh := by
    intro g hg
    have hgf : g ≠ f := fun heq => absurd (h.known f (.inl hf)) (Nat.not_lt.mpr (heq ▸ hg))
    rw [setPc_pc, if_neg hgf]
    exact h.fresh g hg
  sound := h.sound
  order := h.order

/-- A parked fiber is about to be made ready. -/
theorem SchedOk.unpark (h : SchedOk s none) (f : FiberId) :
    SchedOk (s.setPc f .running) (some f) where
  nodup := h.nodup
  idle := h.idle
  known := h.known
  initiated := by
    intro g op hg
    rw [setPc_pc] at hg
    by_cases hgf : g = f
    · rw [if_pos hgf] at hg
      cases hg
    · rw [if_neg hgf] at hg
      exact h.initiated g op hg
  running := by
    intro g hlt hg
    by_cases hgf : g = f
    · exact .inr (by rw [hgf])
    · rw [setPc_pc, if_neg hgf] at hg
      rcases h.running g hlt hg with hrun | hrun
      · exact .inl hrun
      · cases hrun
  asleep := by
    intro g hg hrun
    rw [setPc_pc] at hg
    by_cases hgf : g = f
    · rw [if_pos hgf] at hg
      rcases hg with hg | hg <;> cases hg
    · rw [if_neg hgf] at hg
      exact h.asleep g hg hrun
  fresh := by
    intro g hg
    rw [setPc_pc]
    split
    · rfl
    · exact h.fresh g hg
  sound := h.sound
  order := h.order

/-- A fiber is about to be made. -/
theorem SchedOk.grow (h : SchedOk s none) :
    SchedOk { s with fibers := s.fibers + 1 } (some s.fibers) where
  nodup := h.nodup
  idle := h.idle
  known := fun g hg => (h.known g hg).trans (Nat.lt_succ_self _)
  initiated := h.initiated
  running := by
    intro g hlt hg
    by_cases hgs : g = s.fibers
    · exact .inr (by rw [hgs])
    · rcases h.running g (Nat.lt_of_le_of_ne (Nat.lt_succ_iff.mp hlt) hgs) hg with hrun | hrun
      · exact .inl hrun
      · cases hrun
  asleep := h.asleep
  fresh := fun g hg => h.fresh g (Nat.le_of_succ_le hg)
  sound := h.sound
  order := h.order

end Queue

end Petrel
