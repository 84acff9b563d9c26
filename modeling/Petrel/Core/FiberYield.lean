/-
  Petrel.Core.FiberYield — suspending a fiber on an asynchronous operation.

  The wait for an operation and its completion meet in one flag.  A fiber that
  finds the flag unset suspends and is woken by the completion; one that finds
  it set goes on, and the completion that came before has not woken it, since
  it was the active one.

  Main results:
    * `thread_step`   — the invariant, one case per action.
    * `yield_delivers` — an operation's fiber is woken just if the operation has
      completed, and takes its result once.
    * `ready_in_order` — ready fibers run in the order they became ready.
-/

import Petrel.Core.FiberThread

namespace Petrel

open Framework

/-! ## §1. The operations. -/

section Operations

variable {Val : Type} {s t : YieldThread Val}

@[simp] theorem awaits_running : FiberPc.running.awaits = none := rfl

theorem awaits_iff (pc : FiberPc) (op : OpId) :
    pc.awaits = some op ↔ pc = .initiated op ∨ pc = .waiting op := by
  cases pc <;> simp [FiberPc.awaits]

/-- What an action does that is no business of the operations. -/
structure SameOps (s t : YieldThread Val) : Prop where
  ops : t.ops = s.ops
  pc : ∀ f, t.pc f = s.pc f ∨ ((t.pc f).awaits = none ∧ (s.pc f).awaits = none)
  runnable : ∀ f op, s.pc f = .waiting op → (t.Runnable f ↔ s.Runnable f)

theorem SameOps.awaits (h : SameOps s t) (f : FiberId) : (t.pc f).awaits = (s.pc f).awaits := by
  rcases h.pc f with heq | ⟨ht, hs⟩
  · rw [heq]
  · rw [ht, hs]

theorem SameOps.opsOk (h : SameOps s t) (hs : OpsOk s) : OpsOk t where
  owner := by
    intro f op hf
    rw [h.awaits] at hf
    rw [h.ops]
    exact hs.owner f op hf
  waiting := by
    intro f op r hf hr
    have hsf : s.pc f = .waiting op := by
      rcases h.pc f with heq | ⟨ht, -⟩
      · rw [← heq, hf]
      · rw [hf] at ht
        cases ht
    rw [h.ops] at hr
    rw [h.runnable f op hsf]
    exact hs.waiting f op r hsf hr
  pending := by
    intro op r hr hc
    rw [h.ops] at hr
    rw [h.awaits]
    exact hs.pending op r hr hc
  empty := by
    intro op r hr hc
    rw [h.ops] at hr
    exact hs.empty op r hr hc

/-- The results depend on what the fibers await, not on where they are. -/
theorem ResultsOk.of_same (h : ResultsOk s) (hops : t.ops = s.ops) (hvars : t.vars = s.vars)
    (hcompletions : t.completions = s.completions) (hresults : t.results = s.results)
    (hawaits : ∀ f, (t.pc f).awaits = (s.pc f).awaits) : ResultsOk t where
  logged := by
    intro op r hr hc
    rw [hops] at hr
    obtain ⟨ec, value, hmem, hstored⟩ := h.logged op r hr hc
    refine ⟨ec, value, by rw [hcompletions]; exact hmem, hstored.value, hstored.own, ?_⟩
    rw [hawaits, hvars]
    exact hstored.var
  completed := by
    rw [hcompletions, hops]
    exact h.completed
  distinct := by
    rw [hcompletions]
    exact h.distinct
  taken := by
    rw [hresults, hops, hcompletions]
    simp only [hawaits]
    exact h.taken
  once := by
    rw [hresults]
    exact h.once
  all := by
    rw [hresults, hops]
    simp only [hawaits]
    exact h.all

theorem getElem?_lt {op : OpId} {r : AsyncResult Val} (h : s.ops[op]? = some r) :
    op < s.ops.length :=
  (List.getElem?_eq_some_iff.mp h).1

/-- **The result of a completed operation is taken.** -/
theorem ResultsOk.finish (h : ResultsOk s) {f : FiberId} {op : OpId} {r : AsyncResult Val}
    (hf : (s.pc f).awaits = some op) (hr : s.ops[op]? = some r) (hctx : r.ctx = f)
    (hc : r.completed = true) : ResultsOk (s.finish f op r) := by
  obtain ⟨ec, value, hmem, hstored⟩ := h.logged op r hr hc
  have hawaits : ∀ g, ((s.finish f op r).pc g).awaits = if g = f then none else (s.pc g).awaits := by
    intro g
    show ((s.setPc f .running).pc g).awaits = _
    rw [setPc_pc]
    split <;> rfl
  have hres : (⟨f, op, if r.ec ≠ 0 then .error r.ec else .ok r.value, r.bound.map (s.vars f)⟩ :
      OpResult Val).Of r.bound ec value := by
    have hvar := hstored.var (by rw [hctx]; exact hf)
    unfold OpResult.Of outcomeOf
    rw [hstored.own, hstored.value]
    cases hb : r.bound with
    | none => simp
    | some x =>
        have hx := hvar x hb
        rw [hctx] at hx
        simp [hx]
  constructor
  case logged =>
    intro op' r' hr' hc'
    obtain ⟨ec', value', hmem', hstored'⟩ := h.logged op' r' hr' hc'
    refine ⟨ec', value', hmem', hstored'.value, hstored'.own, ?_⟩
    intro hawait
    rw [hawaits] at hawait
    split at hawait
    · cases hawait
    · exact hstored'.var hawait
  case completed => exact h.completed
  case distinct => exact h.distinct
  case taken =>
    intro res hmem'
    rcases List.mem_append.mp hmem' with hold | hnew
    · obtain ⟨r', ec', value', hr', hc', hfiber, hne, hcompletion, hof⟩ := h.taken res hold
      refine ⟨r', ec', value', hr', hc', hfiber, ?_, hcompletion, hof⟩
      rw [hawaits]
      split
      · exact fun hfalse => nomatch hfalse
      · exact hne
    · obtain rfl := List.mem_singleton.mp hnew
      refine ⟨r, ec, value, hr, hc, hctx, ?_, hmem, hres⟩
      rw [hawaits, if_pos hctx]
      exact fun hfalse => nomatch hfalse
  case once =>
    show ((s.results ++ [_]).map OpResult.op).Nodup
    rw [List.map_append]
    refine List.nodup_append.mpr ⟨h.once, List.nodup_singleton _, ?_⟩
    -- an operation that is still awaited has not been taken
    intro a ha b hb heq
    obtain ⟨res, hold, rfl⟩ := List.mem_map.mp ha
    obtain ⟨r', -, -, hr', -, -, hne, -⟩ := h.taken res hold
    rw [heq, List.mem_singleton.mp hb] at hr' hne
    obtain rfl := Option.some.inj (hr.symm.trans hr')
    rw [hctx] at hne
    exact hne hf
  case all =>
    intro op' r' hr' hc'
    show _ ∨ op' ∈ (s.results ++ [_]).map OpResult.op
    rw [hawaits, List.map_append, List.mem_append]
    rcases h.all op' r' hr' hc' with hawait | hold
    · split
      · rename_i hgf
        rw [hgf] at hawait
        obtain rfl := Option.some.inj (hawait.symm.trans hf)
        exact .inr (.inr List.mem_cons_self)
      · exact .inl hawait
    · exact .inr (.inl hold)

theorem OpsOk.finish (h : OpsOk s) {f : FiberId} {op : OpId} {r : AsyncResult Val}
    (hf : (s.pc f).awaits = some op) (hr : s.ops[op]? = some r) (hc : r.completed = true) :
    OpsOk (s.finish f op r) := by
  have hpc : ∀ g, (s.finish f op r).pc g = if g = f then .running else s.pc g :=
    fun g => setPc_pc f g .running
  constructor
  case owner =>
    intro g op' hg
    rw [hpc] at hg
    split at hg
    · cases hg
    · exact h.owner g op' hg
  case waiting =>
    intro g op' r' hg hr'
    rw [hpc] at hg
    split at hg
    · cases hg
    · exact h.waiting g op' r' hg hr'
  case pending =>
    intro op' r' hr' hc'
    have hawait := h.pending op' r' hr' hc'
    rw [hpc]
    split
    · rename_i hgf
      rw [hgf] at hawait
      obtain rfl := Option.some.inj (hf.symm.trans hawait)
      obtain rfl := Option.some.inj (hr.symm.trans hr')
      rw [hc] at hc'
      cases hc'
    · exact hawait
  case empty => exact h.empty

/-- The active fiber starts an operation. -/
def YieldThread.initiate (s : YieldThread Val) (f : FiberId) (r : AsyncResult Val) :
    YieldThread Val :=
  { s.setPc f (.initiated s.ops.length) with ops := s.ops ++ [r] }

theorem getElem?_initiate {f : FiberId} {r r' : AsyncResult Val} {op : OpId}
    (h : (s.initiate f r).ops[op]? = some r') :
    s.ops[op]? = some r' ∨ (op = s.ops.length ∧ r' = r) := by
  have hops : (s.ops ++ [r])[op]? = some r' := h
  rcases Nat.lt_or_ge op s.ops.length with hlt | hge
  · rw [List.getElem?_append_left hlt] at hops
    exact .inl hops
  · rw [List.getElem?_append_right hge] at hops
    obtain ⟨hop, hr⟩ := List.getElem?_eq_some_iff.mp hops
    have hzero : op - s.ops.length = 0 := Nat.lt_one_iff.mp hop
    refine .inr ⟨Nat.le_antisymm (Nat.sub_eq_zero_iff_le.mp hzero) hge, ?_⟩
    simp only [hzero, List.getElem_cons_zero] at hr
    exact hr.symm

theorem getElem?_initiate_old {f : FiberId} {r r' : AsyncResult Val} {op : OpId}
    (h : s.ops[op]? = some r') : (s.initiate f r).ops[op]? = some r' := by
  show (s.ops ++ [r])[op]? = some r'
  rw [List.getElem?_append_left (getElem?_lt h)]
  exact h

theorem initiate_awaits {f : FiberId} (hf : s.pc f = .running) (r : AsyncResult Val) (g : FiberId)
    {op : OpId} (hlt : op < s.ops.length) :
    ((s.initiate f r).pc g).awaits = some op ↔ (s.pc g).awaits = some op := by
  show ((s.setPc f _).pc g).awaits = some op ↔ _
  rw [setPc_pc]
  split
  · rename_i hgf
    rw [hgf, hf]
    simp only [FiberPc.awaits, Option.some.injEq, reduceCtorEq, iff_false]
    exact hlt.ne'
  · exact Iff.rfl

theorem OpsOk.initiate (h : OpsOk s) {f : FiberId} (hf : s.pc f = .running) (bound : Option Nat)
    (value : Val) : OpsOk (s.initiate f { ctx := f, bound := bound, value := value }) := by
  have hpc : ∀ r g, (s.initiate f r).pc g = if g = f then .initiated s.ops.length else s.pc g :=
    fun _ g => setPc_pc f g _
  constructor
  case owner =>
    intro g op hg
    rw [hpc] at hg
    split at hg
    · rename_i hgf
      obtain rfl := Option.some.inj hg
      exact ⟨_, List.getElem?_concat_length, hgf.symm⟩
    · obtain ⟨r, hr, hctx⟩ := h.owner g op hg
      exact ⟨r, getElem?_initiate_old hr, hctx⟩
  case waiting =>
    intro g op r hg hr
    rw [hpc] at hg
    split at hg
    · cases hg
    · obtain ⟨r', hr', hctx⟩ := h.owner g op (by rw [hg]; rfl)
      obtain rfl := Option.some.inj ((getElem?_initiate_old hr').symm.trans hr)
      exact h.waiting g op r' hg hr'
  case pending =>
    intro op r hr hc
    rcases getElem?_initiate hr with hr | ⟨rfl, rfl⟩
    · exact (initiate_awaits hf _ _ (getElem?_lt hr)).mpr (h.pending op r hr hc)
    · rw [hpc, if_pos rfl]
      rfl
  case empty =>
    intro op r hr hc
    rcases getElem?_initiate hr with hr | ⟨rfl, rfl⟩
    · exact h.empty op r hr hc
    · rfl

theorem ResultsOk.initiate (h : ResultsOk s) {f : FiberId} (hf : s.pc f = .running)
    (bound : Option Nat) (value : Val) :
    ResultsOk (s.initiate f { ctx := f, bound := bound, value := value }) := by
  constructor
  case logged =>
    intro op r hr hc
    rcases getElem?_initiate hr with hr | ⟨rfl, rfl⟩
    · obtain ⟨ec, v, hmem, hstored⟩ := h.logged op r hr hc
      refine ⟨ec, v, hmem, hstored.value, hstored.own, ?_⟩
      rw [initiate_awaits hf _ _ (getElem?_lt hr)]
      exact hstored.var
    · cases hc
  case completed =>
    intro c hc
    obtain ⟨r, hr, hcompleted⟩ := h.completed c hc
    exact ⟨r, getElem?_initiate_old hr, hcompleted⟩
  case distinct => exact h.distinct
  case taken =>
    intro res hmem
    obtain ⟨r, ec, v, hr, hc, hfiber, hne, hcompletion, hof⟩ := h.taken res hmem
    refine ⟨r, ec, v, getElem?_initiate_old hr, hc, hfiber, ?_, hcompletion, hof⟩
    rw [Ne, initiate_awaits hf _ _ (getElem?_lt hr)]
    exact hne
  case once => exact h.once
  case all =>
    intro op r hr hc
    rcases getElem?_initiate hr with hr | ⟨rfl, rfl⟩
    · rw [initiate_awaits hf _ _ (getElem?_lt hr)]
      exact h.all op r hr hc
    · cases hc

/-- The stored operation. -/
def AsyncResult.stored (r : AsyncResult Val) (ec : ErrorCode) (value : Val) : AsyncResult Val :=
  { r with value := value, completed := true, ec := if r.bound = none then ec else r.ec }

theorem store_ops (op : OpId) (r : AsyncResult Val) (ec : ErrorCode) (value : Val) :
    (s.store op r ec value).ops = s.ops.set op (r.stored ec value) := by
  unfold YieldThread.store AsyncResult.stored
  cases r.bound <;> simp

theorem store_frame (op : OpId) (r : AsyncResult Val) (ec : ErrorCode) (value : Val) :
    ∃ ops vars, s.store op r ec value =
      { s with ops := ops, vars := vars, completions := s.completions ++ [(op, ec, value)] } := by
  unfold YieldThread.store
  cases r.bound with
  | none => exact ⟨_, _, rfl⟩
  | some x => exact ⟨_, _, rfl⟩

theorem store_vars_self {op : OpId} {r : AsyncResult Val} {x : Nat} (hx : r.bound = some x)
    (ec : ErrorCode) (value : Val) : (s.store op r ec value).vars r.ctx x = ec := by
  unfold YieldThread.store
  simp only [hx, Function.update_self]

theorem store_vars_other {op : OpId} {r : AsyncResult Val} {f : FiberId} (hf : f ≠ r.ctx)
    (ec : ErrorCode) (value : Val) : (s.store op r ec value).vars f = s.vars f := by
  unfold YieldThread.store
  cases r.bound with
  | none => rfl
  | some x => exact Function.update_of_ne hf ..

/-- An operation behind a completion. -/
theorem getElem?_store {op op' : OpId} {r r' : AsyncResult Val} {ec : ErrorCode} {value : Val}
    (hr : s.ops[op]? = some r) (h : (s.store op r ec value).ops[op']? = some r') :
    (op' = op ∧ r' = r.stored ec value) ∨ (op' ≠ op ∧ s.ops[op']? = some r') := by
  rw [store_ops, List.getElem?_set] at h
  by_cases hop : op = op'
  · subst hop
    rw [if_pos rfl, if_pos (getElem?_lt hr)] at h
    exact .inl ⟨rfl, (Option.some.inj h).symm⟩
  · rw [if_neg hop] at h
    exact .inr ⟨Ne.symm hop, h⟩

theorem getElem?_store_old {op op' : OpId} {r r' : AsyncResult Val} (ec : ErrorCode) (value : Val)
    (hne : op' ≠ op) (h : s.ops[op']? = some r') :
    (s.store op r ec value).ops[op']? = some r' := by
  rw [store_ops, List.getElem?_set_ne hne.symm]
  exact h

theorem getElem?_store_self {op : OpId} {r : AsyncResult Val} (ec : ErrorCode) (value : Val)
    (h : s.ops[op]? = some r) :
    (s.store op r ec value).ops[op]? = some (r.stored ec value) := by
  rw [store_ops, List.getElem?_set_self (getElem?_lt h)]

/-- **A completion is stored for the fiber that awaits it.** -/
theorem ResultsOk.store (h : ResultsOk s) (hops : OpsOk s) {op : OpId} {r : AsyncResult Val}
    (hr : s.ops[op]? = some r) (hc : r.completed = false) (ec : ErrorCode) (value : Val) :
    ResultsOk (s.store op r ec value) := by
  obtain ⟨ops', vars', hframe⟩ := store_frame (s := s) op r ec value
  have hpc : (s.store op r ec value).pc = s.pc := by rw [hframe]
  have hcompletions : (s.store op r ec value).completions = s.completions ++ [(op, ec, value)] := by
    rw [hframe]
  have hresults : (s.store op r ec value).results = s.results := by rw [hframe]
  have hpending := hops.pending op r hr hc
  have hdifferent : ∀ op' r', s.ops[op']? = some r' → r'.completed = true → op' ≠ op := by
    rintro op' r' hr' hc' rfl
    obtain rfl := Option.some.inj (hr.symm.trans hr')
    rw [hc] at hc'
    cases hc'
  constructor
  case logged =>
    intro op' r' hr' hc'
    rw [hcompletions]
    rcases getElem?_store hr hr' with ⟨rfl, rfl⟩ | ⟨hne, hr'⟩
    · refine ⟨ec, value, List.mem_append_right _ List.mem_cons_self, rfl, ?_, ?_⟩
      · show (if r.bound = none then ec else r.ec) = _
        rw [hops.empty op' r hr hc]
        rfl
      · intro _ x hx
        exact store_vars_self (r := r) hx ec value
    · obtain ⟨ec', value', hmem, hstored⟩ := h.logged op' r' hr' hc'
      refine ⟨ec', value', List.mem_append_left _ hmem, hstored.value, hstored.own, ?_⟩
      rw [hpc]
      intro hawait x hx
      -- the fiber that awaits this one is not the owner of the other
      have hne' : r'.ctx ≠ r.ctx := by
        intro heq
        rw [heq, hpending] at hawait
        exact hne (Option.some.inj hawait).symm
      rw [store_vars_other hne']
      exact hstored.var hawait x hx
  case completed =>
    intro c hmem
    rw [hcompletions] at hmem
    rcases List.mem_append.mp hmem with hold | hnew
    · obtain ⟨r', hr', hc'⟩ := h.completed c hold
      exact ⟨r', getElem?_store_old ec value (hdifferent c.1 r' hr' hc') hr', hc'⟩
    · obtain rfl := List.mem_singleton.mp hnew
      exact ⟨_, getElem?_store_self ec value hr, rfl⟩
  case distinct =>
    rw [hcompletions, List.map_append]
    refine List.nodup_append.mpr ⟨h.distinct, List.nodup_singleton _, ?_⟩
    intro a ha b hb heq
    obtain ⟨c, hold, rfl⟩ := List.mem_map.mp ha
    obtain ⟨r', hr', hc'⟩ := h.completed c hold
    exact hdifferent c.1 r' hr' hc' (heq.trans (List.mem_singleton.mp hb))
  case taken =>
    intro res hmem
    rw [hresults] at hmem
    obtain ⟨r', ec', value', hr', hc', hfiber, hne, hcompletion, hof⟩ := h.taken res hmem
    refine ⟨r', ec', value', getElem?_store_old ec value (hdifferent _ r' hr' hc') hr', hc', hfiber,
      ?_, ?_, hof⟩
    · rw [hpc]
      exact hne
    · rw [hcompletions]
      exact List.mem_append_left _ hcompletion
  case once =>
    rw [hresults]
    exact h.once
  case all =>
    intro op' r' hr' hc'
    rw [hpc, hresults]
    rcases getElem?_store hr hr' with ⟨rfl, rfl⟩ | ⟨-, hr'⟩
    · exact .inl hpending
    · exact h.all op' r' hr' hc'

/-- The contexts do not see what is stored. -/
theorem SchedOk.store (h : SchedOk s none) (op : OpId) (r : AsyncResult Val) (ec : ErrorCode)
    (value : Val) : SchedOk (s.store op r ec value) none := by
  obtain ⟨ops', vars', hframe⟩ := store_frame (s := s) op r ec value
  rw [hframe]
  exact ⟨h.nodup, h.idle, h.known, h.initiated, h.running, h.asleep, h.fresh, h.sound, h.order⟩

/-- A fiber whose operation is not completed can run only as the active one. -/
theorem not_runnable_of_pending (hsched : SchedOk s none) (hops : OpsOk s) {op : OpId}
    {r : AsyncResult Val} (hr : s.ops[op]? = some r) (hc : r.completed = false)
    (hactive : s.active ≠ some r.ctx) : ¬ s.Runnable r.ctx := by
  rcases (awaits_iff _ _).mp (hops.pending op r hr hc) with hpc | hpc
  · exact absurd (hsched.initiated r.ctx op hpc) hactive
  · intro hrun
    rw [hops.waiting r.ctx op r hpc hr, hc] at hrun
    cases hrun

theorem complete_eq (op : OpId) (r : AsyncResult Val) (ec : ErrorCode) (value : Val) :
    s.complete op r ec value = if s.active = some r.ctx then s.store op r ec value
      else (s.store op r ec value).setReady r.ctx := by
  obtain ⟨ops', vars', hframe⟩ := store_frame (s := s) op r ec value
  have hactive : (s.store op r ec value).active = s.active := by rw [hframe]
  unfold YieldThread.complete
  simp only [hactive, ne_eq, ite_not]

theorem store_runnable (op : OpId) (r : AsyncResult Val) (ec : ErrorCode) (value : Val)
    (f : FiberId) : (s.store op r ec value).Runnable f ↔ s.Runnable f := by
  obtain ⟨ops', vars', hframe⟩ := store_frame (s := s) op r ec value
  rw [hframe]
  exact Iff.rfl

theorem store_pc (op : OpId) (r : AsyncResult Val) (ec : ErrorCode) (value : Val) :
    (s.store op r ec value).pc = s.pc := by
  obtain ⟨ops', vars', hframe⟩ := store_frame (s := s) op r ec value
  rw [hframe]

theorem complete_runnable {op : OpId} {r : AsyncResult Val} (ec : ErrorCode) (value : Val)
    (f : FiberId) : (s.complete op r ec value).Runnable f ↔ s.Runnable f ∨ f = r.ctx := by
  rw [complete_eq]
  split
  · rename_i hactive
    rw [store_runnable]
    refine ⟨.inl, ?_⟩
    rintro (hrun | rfl)
    · exact hrun
    · exact .inl hactive
  · rw [setReady_runnable, store_runnable]

theorem complete_pc {op : OpId} {r : AsyncResult Val} (ec : ErrorCode) (value : Val) :
    (s.complete op r ec value).pc = s.pc := by
  rw [complete_eq]
  split
  · exact store_pc op r ec value
  · exact store_pc op r ec value

theorem complete_ops {op : OpId} {r : AsyncResult Val} (ec : ErrorCode) (value : Val) :
    (s.complete op r ec value).ops = (s.store op r ec value).ops := by
  rw [complete_eq]
  split <;> rfl

theorem OpsOk.complete (h : OpsOk s) {op : OpId} {r : AsyncResult Val} (hr : s.ops[op]? = some r)
    (hc : r.completed = false) (ec : ErrorCode) (value : Val) :
    OpsOk (s.complete op r ec value) := by
  have hpending := h.pending op r hr hc
  constructor
  case owner =>
    intro f op' hf
    rw [complete_pc] at hf
    rw [complete_ops]
    obtain ⟨r', hr', hctx⟩ := h.owner f op' hf
    by_cases hop : op' = op
    · subst hop
      obtain rfl := Option.some.inj (hr.symm.trans hr')
      exact ⟨_, getElem?_store_self ec value hr, hctx⟩
    · exact ⟨r', getElem?_store_old ec value hop hr', hctx⟩
  case waiting =>
    intro f op' r' hf hr'
    rw [complete_pc] at hf
    rw [complete_ops] at hr'
    rw [complete_runnable]
    obtain ⟨r₀, hr₀, hctx⟩ := h.owner f op' (by rw [hf]; rfl)
    rcases getElem?_store hr hr' with ⟨rfl, rfl⟩ | ⟨hne, hr'⟩
    · obtain rfl := Option.some.inj (hr.symm.trans hr₀)
      exact iff_of_true (.inr hctx.symm) rfl
    · -- the fiber that is woken waits for another operation
      have hother : f ≠ r.ctx := by
        rintro rfl
        rw [hf] at hpending
        exact hne (Option.some.inj hpending)
      rw [h.waiting f op' r' hf hr']
      exact or_iff_left hother
  case pending =>
    intro op' r' hr' hc'
    rw [complete_ops] at hr'
    rw [complete_pc]
    rcases getElem?_store hr hr' with ⟨rfl, rfl⟩ | ⟨-, hr'⟩
    · cases hc'
    · exact h.pending op' r' hr' hc'
  case empty =>
    intro op' r' hr' hc'
    rw [complete_ops] at hr'
    rcases getElem?_store hr hr' with ⟨rfl, rfl⟩ | ⟨-, hr'⟩
    · cases hc'
    · exact h.empty op' r' hr' hc'

theorem SchedOk.complete (h : SchedOk s none) (hops : OpsOk s) {op : OpId} {r : AsyncResult Val}
    (hr : s.ops[op]? = some r) (hc : r.completed = false) (ec : ErrorCode) (value : Val) :
    SchedOk (s.complete op r ec value) none := by
  obtain ⟨ops', vars', hframe⟩ := store_frame (s := s) op r ec value
  have hstore := h.store op r ec value
  have hawaits := hops.pending op r hr hc
  have hawake : s.pc r.ctx ≠ .parked ∧ s.pc r.ctx ≠ .ended := by
    constructor
    · intro hpc
      rw [hpc] at hawaits
      cases hawaits
    · intro hpc
      rw [hpc] at hawaits
      cases hawaits
  have hknown : r.ctx < s.fibers := by
    by_contra hge
    rw [h.fresh r.ctx (Nat.le_of_not_lt hge)] at hawaits
    cases hawaits
  have hfibers : (s.store op r ec value).fibers = s.fibers := by rw [hframe]
  rw [complete_eq]
  split
  · exact hstore
  · rename_i hactive
    have hidle := not_runnable_of_pending h hops hr hc hactive
    refine hstore.setReady ?_ ?_ ?_ (fun g hg => nomatch hg)
    · rw [store_runnable]
      exact hidle
    · rw [hfibers]
      exact hknown
    · rw [store_pc]
      exact hawake

theorem ResultsOk.complete (h : ResultsOk s) (hops : OpsOk s) {op : OpId} {r : AsyncResult Val}
    (hr : s.ops[op]? = some r) (hc : r.completed = false) (ec : ErrorCode) (value : Val) :
    ResultsOk (s.complete op r ec value) := by
  have hstore := h.store hops hr hc ec value
  rw [complete_eq]
  split
  · exact hstore
  · exact hstore.of_same rfl rfl rfl rfl (fun _ => rfl)

end Operations

/-! ## §2. The steps keep the invariant. -/

section Runs

variable {Val : Type} {s t : YieldThread Val}

/-- The code of a fiber that is not suspended awaits nothing. -/
theorem awaits_of_running {f : FiberId} (hf : s.pc f = .running) : (s.pc f).awaits = none := by
  rw [hf]
  rfl

/-- **The active fiber leaves by a switch**, for a place where it awaits nothing. -/
theorem ThreadOk.leave (h : ThreadOk s) {f : FiberId} (hactive : s.active = some f)
    (hf : s.pc f = .running) {pc : FiberPc} (hpc : pc = .parked ∨ pc = .ended) :
    ThreadOk (s.setPc f pc).pickNext := by
  have hawaits : pc.awaits = none := by rcases hpc with rfl | rfl <;> rfl
  have hsame : SameOps s (s.setPc f pc).pickNext := by
    refine ⟨pickNext_ops, ?_, ?_⟩
    · intro g
      rw [pickNext_pc, setPc_pc]
      split
      · rename_i hgf
        exact .inr ⟨hawaits, by rw [hgf]; exact awaits_of_running hf⟩
      · exact .inl rfl
    · intro g op hg
      rw [pickNext_runnable]
      refine ⟨.inr, ?_⟩
      rintro (hrun | hrun)
      · obtain rfl := Option.some.inj (hactive.symm.trans hrun)
        rw [hf] at hg
        cases hg
      · exact hrun
  refine ⟨?_, hsame.opsOk h.ops, ?_⟩
  · refine h.sched.switch (fun g hg => ?_) (fun g hg => ?_)
    · exact Function.update_of_ne (fun heq => hg (by rw [heq]; exact hactive)) ..
    · obtain rfl := Option.some.inj (hactive.symm.trans hg)
      rw [Function.update_self]
      rcases hpc with rfl | rfl <;> exact ⟨(fun op heq => nomatch heq), fun heq => nomatch heq⟩
  · refine h.results.of_same pickNext_ops ?_ ?_ ?_ hsame.awaits
    all_goals
      unfold YieldThread.pickNext
      split <;> rfl

/-- **The active fiber suspends on an operation** that is not completed. -/
theorem ThreadOk.suspend (h : ThreadOk s) {f : FiberId} {op : OpId} {r : AsyncResult Val}
    (hactive : s.active = some f) (hf : s.pc f = .initiated op) (hr : s.ops[op]? = some r)
    (hc : r.completed = false) : ThreadOk (s.setPc f (.waiting op)).pickNext := by
  have hpc : ∀ g, (s.setPc f (.waiting op)).pickNext.pc g =
      if g = f then .waiting op else s.pc g := fun g => by rw [pickNext_pc, setPc_pc]
  have hawaits : ∀ g, ((s.setPc f (.waiting op)).pickNext.pc g).awaits = (s.pc g).awaits := by
    intro g
    rw [hpc]
    split
    · rename_i hgf
      rw [hgf, hf]
      rfl
    · rfl
  refine ⟨?_, ?_, ?_⟩
  · refine h.sched.switch (fun g hg => ?_) (fun g hg => ?_)
    · exact Function.update_of_ne (fun heq => hg (by rw [heq]; exact hactive)) ..
    · obtain rfl := Option.some.inj (hactive.symm.trans hg)
      rw [Function.update_self]
      exact ⟨(fun op heq => nomatch heq), fun heq => nomatch heq⟩
  · constructor
    case owner =>
      intro g op' hg
      rw [hawaits] at hg
      rw [pickNext_ops]
      exact h.ops.owner g op' hg
    case waiting =>
      intro g op' r' hg hr'
      rw [pickNext_ops] at hr'
      rw [pickNext_runnable]
      rw [hpc] at hg
      split at hg
      · -- the fiber itself is not linked, and its operation is not completed
        rename_i hgf
        cases hg
        obtain rfl := Option.some.inj (hr.symm.trans hr')
        refine iff_of_false ?_ (by rw [hc]; exact Bool.false_ne_true)
        rw [hgf]
        exact h.sched.idle f hactive
      · rename_i hgf
        rw [← h.ops.waiting g op' r' hg hr']
        refine ⟨.inr, ?_⟩
        rintro (hrun | hrun)
        · exact absurd (Option.some.inj (hactive.symm.trans hrun)).symm hgf
        · exact hrun
    case pending =>
      intro op' r' hr' hc'
      rw [pickNext_ops] at hr'
      rw [hawaits]
      exact h.ops.pending op' r' hr' hc'
    case empty =>
      intro op' r' hr' hc'
      rw [pickNext_ops] at hr'
      exact h.ops.empty op' r' hr' hc'
  · refine h.results.of_same pickNext_ops ?_ ?_ ?_ hawaits
    all_goals
      unfold YieldThread.pickNext
      split <;> rfl

/-- **The active fiber takes its result.** -/
theorem ThreadOk.finish (h : ThreadOk s) {f : FiberId} {op : OpId} {r : AsyncResult Val}
    (hactive : s.active = some f) (hf : (s.pc f).awaits = some op) (hr : s.ops[op]? = some r)
    (hc : r.completed = true) : ThreadOk (s.finish f op r) := by
  obtain ⟨r', hr', hctx⟩ := h.ops.owner f op hf
  obtain rfl := Option.some.inj (hr.symm.trans hr')
  refine ⟨?_, h.ops.finish hf hr hc, h.results.finish hf hr hctx hc⟩
  have hstay := h.sched.stay hactive (show FiberPc.running ≠ .parked ∧ FiberPc.running ≠ .ended by simp)
  exact ⟨hstay.nodup, hstay.idle, hstay.known, hstay.initiated, hstay.running, hstay.asleep,
    hstay.fresh, hstay.sound, hstay.order⟩

/-- **A fiber with nothing to await becomes ready.** -/
theorem ThreadOk.setReady (h : ThreadOk s) {f : FiberId} (hsched : SchedOk t (some f))
    (hf : ¬ t.Runnable f) (hlt : f < t.fibers) (hpc : t.pc f = .running)
    (hsame : SameOps s t) (hvars : t.vars = s.vars) (hcompletions : t.completions = s.completions)
    (hresults : t.results = s.results) (hs : (s.pc f).awaits = none) :
    ThreadOk (t.setReady f) := by
  have hready : SameOps s (t.setReady f) := by
    refine ⟨hsame.ops, hsame.pc, ?_⟩
    intro g op hg
    rw [setReady_runnable, hsame.runnable g op hg]
    refine or_iff_left ?_
    rintro rfl
    rw [hg] at hs
    cases hs
  refine ⟨?_, hready.opsOk h.ops, ?_⟩
  · refine hsched.setReady hf hlt ?_ (fun g hg => (Option.some.inj hg).symm)
    rw [hpc]
    simp
  · exact h.results.of_same hready.ops hvars hcompletions hresults hready.awaits

/-- A switch away from a fiber that awaits nothing is no business of the operations. -/
theorem sameOps_pickNext (h : ∀ f, s.active = some f → s.pc f = .running) :
    SameOps s s.pickNext := by
  refine ⟨pickNext_ops, fun g => .inl (pickNext_pc g), ?_⟩
  intro g op hg
  rw [pickNext_runnable]
  refine ⟨.inr, ?_⟩
  rintro (hrun | hrun)
  · rw [h g hrun] at hg
    cases hg
  · exact hrun

theorem pickNext_frame : s.pickNext.vars = s.vars ∧ s.pickNext.completions = s.completions ∧
    s.pickNext.results = s.results := by
  unfold YieldThread.pickNext
  split <;> exact ⟨rfl, rfl, rfl⟩

/-- **The dispatcher picks a ready fiber.** -/
theorem ThreadOk.dispatch (h : ThreadOk s) (hactive : s.active = none) : ThreadOk s.pickNext := by
  have hnone : ∀ f, s.active = some f → s.pc f = .running := by
    intro f hf
    rw [hactive] at hf
    cases hf
  have hsame := sameOps_pickNext hnone
  obtain ⟨hvars, hcompletions, hresults⟩ := pickNext_frame (s := s)
  refine ⟨?_, hsame.opsOk h.ops, h.results.of_same hsame.ops hvars hcompletions hresults hsame.awaits⟩
  have hsched : SchedOk s.pickNext none := by
    refine h.sched.switch (fun _ _ => rfl) (fun f hf => ?_)
    rw [hactive] at hf
    cases hf
  exact hsched

/-- **The active fiber goes to the end of the queue.** -/
theorem ThreadOk.yield (h : ThreadOk s) {f : FiberId} (hactive : s.active = some f)
    (hf : s.pc f = .running) : ThreadOk (s.pickNext.setReady f) := by
  have hrunning : ∀ g, s.active = some g → s.pc g = .running := by
    intro g hg
    obtain rfl := Option.some.inj (hactive.symm.trans hg)
    exact hf
  obtain ⟨hvars, hcompletions, hresults⟩ := pickNext_frame (s := s)
  have hsched : SchedOk s.pickNext (some f) := by
    refine h.sched.switch (fun _ _ => rfl) (fun g hg => ⟨?_, ?_⟩)
    · intro op hop
      rw [hrunning g hg] at hop
      cases hop
    · intro _
      rw [← hg, hactive]
  refine h.setReady hsched ?_ ?_ ?_ (sameOps_pickNext hrunning) hvars hcompletions hresults
    (awaits_of_running hf)
  · rw [pickNext_runnable]
    exact h.sched.idle f hactive
  · rw [pickNext_fibers]
    exact h.sched.known f (.inl hactive)
  · rw [pickNext_pc]
    exact hf

/-- **A parked fiber is woken.** -/
theorem ThreadOk.wake (h : ThreadOk s) {f : FiberId} (hf : s.pc f = .parked) :
    ThreadOk ((s.setPc f .running).setReady f) := by
  have hparked : (s.pc f).awaits = none := by
    rw [hf]
    rfl
  have hsame : SameOps s (s.setPc f .running) := by
    refine ⟨rfl, ?_, fun _ _ _ => Iff.rfl⟩
    intro g
    rw [setPc_pc]
    split
    · rename_i hgf
      exact .inr ⟨rfl, by rw [hgf]; exact hparked⟩
    · exact .inl rfl
  refine h.setReady (h.sched.unpark f) (h.sched.asleep f (.inl hf)) ?_ ?_ hsame rfl rfl rfl hparked
  · by_contra hge
    have hfresh := h.sched.fresh f (Nat.le_of_not_lt hge)
    rw [hf] at hfresh
    cases hfresh
  · rw [setPc_pc, if_pos rfl]

/-- **A fiber is made.** -/
theorem ThreadOk.spawn (h : ThreadOk s) :
    ThreadOk { s.setReady s.fibers with fibers := s.fibers + 1 } := by
  have hpc := h.sched.fresh s.fibers le_rfl
  refine h.setReady h.sched.grow ?_ (Nat.lt_succ_self _) hpc
    ⟨rfl, fun _ => .inl rfl, fun _ _ _ => Iff.rfl⟩ rfl rfl rfl (awaits_of_running hpc)
  exact fun hrun => absurd (h.sched.known _ hrun) (Nat.lt_irrefl _)

/-- **Every action keeps the invariant.** -/
theorem thread_step [Inhabited Val] {a : YieldAction Val} (h : ThreadOk s)
    (hstep : yieldStep s a = some t) : ThreadOk t := by
  cases a with
  | dispatch =>
      simp only [yieldStep] at hstep
      split at hstep
      · rename_i hactive hready
        exact Option.some.inj hstep ▸ h.dispatch hactive
      · cases hstep
  | complete op ec value =>
      simp only [yieldStep] at hstep
      split at hstep
      · rename_i r hr
        split at hstep
        · cases hstep
        · rename_i hc
          have hc : r.completed = false := Bool.eq_false_iff.mpr hc
          obtain rfl := Option.some.inj hstep
          exact ⟨h.sched.complete h.ops hr hc ec value, h.ops.complete hr hc ec value,
            h.results.complete h.ops hr hc ec value⟩
      · cases hstep
  | wake f =>
      simp only [yieldStep] at hstep
      split at hstep
      · rename_i hf
        exact Option.some.inj hstep ▸ h.wake hf
      · cases hstep
  | spawn =>
      simp only [yieldStep] at hstep
      split at hstep
      · split at hstep
        · exact Option.some.inj hstep ▸ h.spawn
        · cases hstep
      · cases hstep
  | initiate bound =>
      simp only [yieldStep] at hstep
      split at hstep
      · rename_i f hactive
        split at hstep
        · rename_i hf
          obtain rfl := Option.some.inj hstep
          refine ⟨?_, h.ops.initiate hf bound default, h.results.initiate hf bound default⟩
          have hstay : SchedOk (s.setPc f (.initiated s.ops.length)) none :=
            h.sched.stay hactive (by simp)
          exact ⟨hstay.nodup, hstay.idle, hstay.known, hstay.initiated, hstay.running,
            hstay.asleep, hstay.fresh, hstay.sound, hstay.order⟩
        · cases hstep
      · cases hstep
  | get =>
      simp only [yieldStep] at hstep
      split at hstep
      · rename_i f hactive
        split at hstep
        · rename_i op hf
          split at hstep
          · rename_i r hr
            split at hstep
            · rename_i hc
              have hawaits : (s.pc f).awaits = some op := by
                rw [hf]
                rfl
              exact Option.some.inj hstep ▸ h.finish hactive hawaits hr hc
            · rename_i hc
              exact Option.some.inj hstep ▸
                h.suspend hactive hf hr (Bool.eq_false_iff.mpr hc)
          · cases hstep
        · cases hstep
      · cases hstep
  | resumed =>
      simp only [yieldStep] at hstep
      split at hstep
      · rename_i f hactive
        split at hstep
        · rename_i op hf
          obtain ⟨r, hr, rfl⟩ := Option.map_eq_some_iff.mp hstep
          have hawaits : (s.pc f).awaits = some op := by
            rw [hf]
            rfl
          -- the fiber runs, so its operation is completed
          exact h.finish hactive hawaits hr ((h.ops.waiting f op r hf hr).mp (.inl hactive))
        · cases hstep
      · cases hstep
  | yield =>
      simp only [yieldStep] at hstep
      split at hstep
      · rename_i f hactive
        split at hstep
        · rename_i hf
          exact Option.some.inj hstep ▸ h.yield hactive hf
        · cases hstep
      · cases hstep
  | park =>
      simp only [yieldStep] at hstep
      split at hstep
      · rename_i f hactive
        split at hstep
        · rename_i hf
          exact Option.some.inj hstep ▸ h.leave hactive hf (.inl rfl)
        · cases hstep
      · cases hstep
  | exit =>
      simp only [yieldStep] at hstep
      split at hstep
      · rename_i f hactive
        split at hstep
        · rename_i hf
          exact Option.some.inj hstep ▸ h.leave hactive hf (.inr rfl)
        · cases hstep
      · cases hstep

/-! ## §3. Whole runs. -/

theorem thread_init : ThreadOk ({} : YieldThread Val) where
  sched := by
    refine ⟨List.nodup_nil, fun _ _ => List.not_mem_nil, ?_, ?_, ?_, ?_, fun _ _ => rfl, rfl, rfl⟩
    · rintro f (hf | hf)
      · exact Option.some.inj hf ▸ Nat.one_pos
      · exact absurd hf List.not_mem_nil
    · exact fun _ _ hf => nomatch hf
    · intro f hlt _
      rw [Nat.lt_one_iff.mp hlt]
      exact .inl (.inl rfl)
    · rintro f (hf | hf) <;> cases hf
  ops := ⟨fun _ _ hf => (nomatch hf), fun _ _ _ hf => (nomatch hf), fun _ _ hr => (nomatch hr),
    fun _ _ hr => nomatch hr⟩
  results := ⟨fun _ _ hr => (nomatch hr), fun _ hc => absurd hc List.not_mem_nil, List.nodup_nil,
    fun _ hr => absurd hr List.not_mem_nil, List.nodup_nil, fun _ _ hr => nomatch hr⟩

theorem threadOk_reach [Inhabited Val] (h : (yieldMachine Val).Reach s) : ThreadOk s :=
  h.invariant (I := ThreadOk) thread_init (fun _ _ _ hs _ hstep => thread_step hs hstep)

/-- A completed operation has a completion. -/
theorem ThreadOk.completed_iff (h : ThreadOk s) {op : OpId} {r : AsyncResult Val}
    (hr : s.ops[op]? = some r) :
    r.completed = true ↔ ∃ ec value, (op, ec, value) ∈ s.completions := by
  constructor
  · intro hc
    obtain ⟨ec, value, hmem, -⟩ := h.results.logged op r hr hc
    exact ⟨ec, value, hmem⟩
  · rintro ⟨ec, value, hmem⟩
    obtain ⟨r', hr', hc⟩ := h.results.completed _ hmem
    obtain rfl := Option.some.inj (hr.symm.trans hr')
    exact hc

/-- **AN OPERATION WAKES ITS FIBER AND DELIVERS ITS RESULT.**  In every run of a
thread no context is linked twice or picked while active.  A fiber suspended
on an operation has started it, and can run just if it has completed.  Every
completion is taken once, by the fiber that started the operation, as the value
or the error of that completion, or else this fiber can run and is about to
take it. -/
theorem yield_delivers [Inhabited Val] (h : (yieldMachine Val).Reach s) :
    s.misused = false ∧
    (∀ f op, s.pc f = .waiting op → (∃ r, s.ops[op]? = some r ∧ r.ctx = f) ∧
      (s.Runnable f ↔ ∃ ec value, (op, ec, value) ∈ s.completions)) ∧
    (s.completions.map Prod.fst).Nodup ∧ (s.results.map OpResult.op).Nodup ∧
    (∀ res ∈ s.results, ∃ r ec value, s.ops[res.op]? = some r ∧ r.ctx = res.fiber ∧
      (res.op, ec, value) ∈ s.completions ∧ res.Of r.bound ec value) ∧
    ∀ c ∈ s.completions, ∃ r, s.ops[c.1]? = some r ∧
      ((∃ res ∈ s.results, res.op = c.1 ∧ res.fiber = r.ctx) ∨
        ((s.pc r.ctx).awaits = some c.1 ∧ s.Runnable r.ctx)) := by
  have hok := threadOk_reach h
  refine ⟨hok.sched.sound, ?_, hok.results.distinct, hok.results.once, ?_, ?_⟩
  · intro f op hf
    obtain ⟨r, hr, hctx⟩ := hok.ops.owner f op (by rw [hf]; rfl)
    refine ⟨⟨r, hr, hctx⟩, ?_⟩
    rw [hok.ops.waiting f op r hf hr, hok.completed_iff hr]
  · intro res hres
    obtain ⟨r, ec, value, hr, -, hctx, -, hmem, hof⟩ := hok.results.taken res hres
    exact ⟨r, ec, value, hr, hctx, hmem, hof⟩
  · intro c hc
    obtain ⟨r, hr, hcompleted⟩ := hok.results.completed c hc
    refine ⟨r, hr, ?_⟩
    rcases hok.results.all c.1 r hr hcompleted with hawaits | htaken
    · refine .inr ⟨hawaits, ?_⟩
      rcases (awaits_iff _ _).mp hawaits with hpc | hpc
      · exact .inl (hok.sched.initiated _ _ hpc)
      · exact (hok.ops.waiting _ _ r hpc hr).mpr hcompleted
    · obtain ⟨res, hres, hop⟩ := List.mem_map.mp htaken
      obtain ⟨r', ec, value, hr', -, hctx, -⟩ := hok.results.taken res hres
      rw [hop, hr] at hr'
      obtain rfl := Option.some.inj hr'
      exact .inl ⟨res, hres, hop, hctx.symm⟩

/-- Two fibers of one thread: the operation of the second one fails while the
first one waits. -/
theorem yield_delivers_two :
    ∃ s, (yieldMachine Nat).run [.spawn, .initiate (some 0), .get, .initiate none, .get,
        .complete 1 5 0, .dispatch, .resumed, .complete 0 0 7, .yield, .resumed] = some s ∧
      s.results = [⟨1, 1, .error 5, none⟩, ⟨0, 0, .ok 7, some 0⟩] ∧
      s.misused = false ∧
      (∀ f op, s.pc f = .waiting op → (∃ r, s.ops[op]? = some r ∧ r.ctx = f) ∧
        (s.Runnable f ↔ ∃ ec value, (op, ec, value) ∈ s.completions)) ∧
      (s.completions.map Prod.fst).Nodup ∧ (s.results.map OpResult.op).Nodup ∧
      (∀ res ∈ s.results, ∃ r ec value, s.ops[res.op]? = some r ∧ r.ctx = res.fiber ∧
        (res.op, ec, value) ∈ s.completions ∧ res.Of r.bound ec value) ∧
      ∀ c ∈ s.completions, ∃ r, s.ops[c.1]? = some r ∧
        ((∃ res ∈ s.results, res.op = c.1 ∧ res.fiber = r.ctx) ∨
          ((s.pc r.ctx).awaits = some c.1 ∧ s.Runnable r.ctx)) := by
  obtain ⟨s, hs, hresults⟩ : ∃ s, (yieldMachine Nat).run [.spawn, .initiate (some 0), .get,
      .initiate none, .get, .complete 1 5 0, .dispatch, .resumed, .complete 0 0 7, .yield,
      .resumed] = some s ∧ s.results = [⟨1, 1, .error 5, none⟩, ⟨0, 0, .ok 7, some 0⟩] :=
    ⟨_, rfl, rfl⟩
  exact ⟨s, hs, hresults, yield_delivers (Machine.reach_iff_run.mpr ⟨_, hs⟩)⟩

/-- The histories of the ready queue grow at their ends. -/
structure Later (s t : YieldThread Val) : Prop where
  awakened : s.awakened <+: t.awakened
  picked : s.picked <+: t.picked

theorem Later.of_eq (hawakened : s.awakened = t.awakened) (hpicked : s.picked = t.picked) :
    Later s t :=
  ⟨hawakened ▸ List.prefix_rfl, hpicked ▸ List.prefix_rfl⟩

theorem Later.trans {u : YieldThread Val} (h : Later s t) (h' : Later t u) : Later s u :=
  ⟨h.awakened.trans h'.awakened, h.picked.trans h'.picked⟩

theorem later_setReady (s : YieldThread Val) (f : FiberId) : Later s (s.setReady f) :=
  ⟨List.prefix_append _ _, List.prefix_rfl⟩

theorem later_pickNext (s : YieldThread Val) : Later s s.pickNext := by
  unfold YieldThread.pickNext
  split
  · exact .of_eq rfl rfl
  · exact ⟨List.prefix_rfl, List.prefix_append _ _⟩

theorem later_complete (s : YieldThread Val) (op : OpId) (r : AsyncResult Val) (ec : ErrorCode)
    (value : Val) : Later s (s.complete op r ec value) := by
  obtain ⟨ops', vars', hframe⟩ := store_frame (s := s) op r ec value
  have hstore : Later s (s.store op r ec value) := by
    rw [hframe]
    exact .of_eq rfl rfl
  rw [complete_eq]
  split
  · exact hstore
  · exact hstore.trans (later_setReady _ _)

theorem later_leave (s : YieldThread Val) (f : FiberId) (pc : FiberPc) :
    Later s (s.setPc f pc).pickNext := by
  have hset : Later s (s.setPc f pc) := .of_eq rfl rfl
  exact hset.trans (later_pickNext _)

theorem later_step [Inhabited Val] {a : YieldAction Val} (hstep : yieldStep s a = some t) :
    Later s t := by
  cases a with
  | dispatch =>
      simp only [yieldStep] at hstep
      split at hstep
      · exact Option.some.inj hstep ▸ later_pickNext s
      · cases hstep
  | complete op ec value =>
      simp only [yieldStep] at hstep
      split at hstep
      · split at hstep
        · cases hstep
        · exact Option.some.inj hstep ▸ later_complete s op _ ec value
      · cases hstep
  | wake f =>
      simp only [yieldStep] at hstep
      split at hstep
      · have hset : Later s (s.setPc f .running) := .of_eq rfl rfl
        exact Option.some.inj hstep ▸ hset.trans (later_setReady _ f)
      · cases hstep
  | get =>
      simp only [yieldStep] at hstep
      (repeat' split at hstep) <;> cases hstep
      · exact .of_eq rfl rfl
      · exact later_leave s _ _
  | resumed =>
      simp only [yieldStep] at hstep
      split at hstep
      · split at hstep
        · obtain ⟨r, -, rfl⟩ := Option.map_eq_some_iff.mp hstep
          exact .of_eq rfl rfl
        · cases hstep
      · cases hstep
  | spawn =>
      simp only [yieldStep] at hstep
      (repeat' split at hstep) <;> cases hstep
      have hgrow : Later s { s with fibers := s.fibers + 1 } := .of_eq rfl rfl
      exact hgrow.trans (later_setReady _ s.fibers)
  | initiate bound =>
      simp only [yieldStep] at hstep
      (repeat' split at hstep) <;> cases hstep
      exact .of_eq rfl rfl
  | yield =>
      simp only [yieldStep] at hstep
      (repeat' split at hstep) <;> cases hstep
      exact (later_pickNext s).trans (later_setReady _ _)
  | park | exit =>
      simp only [yieldStep] at hstep
      (repeat' split at hstep) <;> cases hstep
      exact later_leave s _ _

theorem later_run [Inhabited Val] {as : List (YieldAction Val)}
    (hrun : (yieldMachine Val).runFrom s as = some t) : Later s t := by
  induction as generalizing s with
  | nil =>
      obtain rfl := Option.some.inj hrun
      exact .of_eq rfl rfl
  | cons a as ih =>
      obtain ⟨u, hstep, hrest⟩ := Option.bind_eq_some_iff.mp hrun
      exact .trans (later_step hstep) (ih hrest)

/-- **READY FIBERS RUN IN ORDER.**  Whatever a thread does from a state on, the
fibers it picks are those that are ready then, in the order of the queue, and
after them those that have become ready since, in the order in which they did:
no fiber is overtaken. -/
theorem ready_in_order [Inhabited Val] {as : List (YieldAction Val)}
    (h : (yieldMachine Val).Reach s) (hrun : (yieldMachine Val).runFrom s as = some t) :
    ∃ picks more, t.picked = s.picked ++ picks ∧ t.awakened = s.awakened ++ more ∧
      picks ++ t.ready = s.ready ++ more ∧ (picks <+: s.ready ∨ s.ready <+: picks) := by
  obtain ⟨⟨more, hmore⟩, ⟨picks, hpicks⟩⟩ := later_run hrun
  have hs := (threadOk_reach h).sched.order
  have ht := (threadOk_reach (h.runFrom hrun)).sched.order
  -- both are the start of what was ready then and what was made ready since
  have hall : picks ++ t.ready = s.ready ++ more := by
    have hjoin : s.picked ++ (s.ready ++ more) = s.picked ++ (picks ++ t.ready) := by
      rw [← List.append_assoc, ← hs, hmore, ht, ← hpicks, List.append_assoc]
    exact (List.append_cancel_left hjoin).symm
  exact ⟨picks, more, hpicks.symm, hmore.symm, hall,
    List.prefix_or_prefix_of_prefix ⟨t.ready, hall⟩ ⟨more, rfl⟩⟩

/-- Two new fibers run before the one that yields, and before one made since. -/
theorem ready_in_order_spawned :
    ∃ s t : YieldThread Nat, (yieldMachine Nat).run [.spawn, .spawn, .yield] = some s ∧
      (yieldMachine Nat).runFrom s [.exit, .spawn, .yield, .exit] = some t ∧
      t.picked = s.picked ++ [2, 0, 3] ∧
      ∃ picks more, t.picked = s.picked ++ picks ∧ t.awakened = s.awakened ++ more ∧
        picks ++ t.ready = s.ready ++ more ∧ (picks <+: s.ready ∨ s.ready <+: picks) := by
  obtain ⟨s, hs⟩ : ∃ s, (yieldMachine Nat).run [.spawn, .spawn, .yield] = some s := ⟨_, rfl⟩
  obtain ⟨t, ht, hpicked⟩ : ∃ t, (yieldMachine Nat).runFrom s [.exit, .spawn, .yield, .exit] = some t ∧
      t.picked = s.picked ++ [2, 0, 3] := by
    obtain rfl := Option.some.inj hs
    exact ⟨_, rfl, rfl⟩
  exact ⟨s, t, hs, ht, hpicked, ready_in_order (Machine.reach_iff_run.mpr ⟨_, hs⟩) ht⟩

end Runs

end Petrel
