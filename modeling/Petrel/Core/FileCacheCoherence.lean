/-
  Petrel.Core.FileCacheCoherence — the main map and the workers' local maps.

  `add_file` and `remove_file` run on the refresh thread: they post the update
  to the queue of every registered io_service, one after another, and then
  write the mutex-protected main map.  A worker executes its queue in order,
  and `get_file` on a worker is three steps: look up the local map; on a miss
  read the main map under the lock; insert what was read into the local map.
  The worker's own queue does not advance between these steps.

  The value a worker will hold for a name once its `get_file` and its queue
  are done is its SETTLED value.  Each step moves settled values only between
  "no entry", the main map's entry and the entry of the update in progress.

  Main results:
    * `cache_inv_reach`    — settled values along every run whose refills
      do not overtake a removal.
    * `cache_coherent`     — in every quiescent state such a run reaches, a
      local entry is the main map's entry.
    * `cache_serves_removed` — without the condition a removed file is served.
    * `names_reach`        — names of cached files come from the updates alone.
-/

import Petrel.Framework.Machine

namespace Petrel

open Framework

/-! ## §1. The state of the cache. -/

/-- A file map: each name's entry. -/
abbrev FileMap (N F : Type) := N → Option F

/-- What `add_file` and `remove_file` do to a map: assign the entry of `name`,
or erase it. -/
structure FileUpdate (N F : Type) where
  name : N
  file : Option F
  deriving DecidableEq

/-- A task posted to a worker's io_service. -/
inductive CacheTask (N F : Type) where
  | create                            -- `register_io_service`: a new empty local map
  | update (u : FileUpdate N F)       -- the update of `add_file` or `remove_file`
  deriving DecidableEq

/-- Where a worker is in `get_file`. -/
inductive GetFilePc (N F : Type) where
  | outside
  | missed (name : N) (updateLocalMap : Bool)   -- about to call `get_file_main`
  | inserting (name : N) (f : F)                -- about to assign the local entry

/-- A worker thread: its `m_file_map_local` (null before the first task), the
queue of its io_service and its `get_file`. -/
structure CacheWorker (N F : Type) where
  fileMapLocal : Option (FileMap N F) := none
  queue : List (CacheTask N F)
  pc : GetFilePc N F := .outside

/-- Where the refresh thread is: between operations, or with `u` to post to
the workers in `todo` before it writes the main map. -/
inductive RefreshPc (N F W : Type) where
  | idle
  | posting (u : FileUpdate N F) (todo : List W)
  deriving DecidableEq

structure CacheState (N F W : Type) where
  fileMap : FileMap N F
  refresh : RefreshPc N F W := .idle
  worker : W → CacheWorker N F

inductive CacheAction (N F W : Type) where
  | start (u : FileUpdate N F)      -- the refresh thread enters add_file or remove_file
  | refresh                         -- its next post, or its write to the main map
  | execute (w : W)                 -- worker `w` runs the head of its queue
  | getFile (w : W) (name : N)      -- worker `w` enters `get_file`: the local lookup
  | advance (w : W)                 -- the next step of the `get_file` of `w`

/-! ## §2. The steps. -/

section Steps

variable {N F W : Type} [DecidableEq N] [DecidableEq W]

/-- Run a posted task.  An update dereferences the local map, so without one
there is no result. -/
def CacheTask.exec : CacheTask N F → Option (FileMap N F) → Option (FileMap N F)
  | .create, _ => some (fun _ => none)
  | .update u, some m => some (Function.update m u.name u.file)
  | .update _, none => none

/-- The local lookup of `get_file`. -/
def CacheWorker.lookup (c : CacheWorker N F) (name : N) : Option F :=
  c.fileMapLocal.bind (fun m => m name)

/-- What `get_file` returns when nothing else moves meanwhile. -/
def CacheWorker.getFile (c : CacheWorker N F) (main : FileMap N F) (name : N) : Option F :=
  (c.lookup name).or (main name)

def executeStep (c : CacheWorker N F) : Option (CacheWorker N F) :=
  match c.pc, c.queue with
  | .outside, task :: queue =>
      (task.exec c.fileMapLocal).map (fun m => { c with fileMapLocal := some m, queue := queue })
  | _, _ => none

def getFileStep (c : CacheWorker N F) (name : N) : Option (CacheWorker N F) :=
  match c.pc with
  | .outside =>
      match c.lookup name with
      | some _ => some c
      | none => some { c with pc := .missed name c.fileMapLocal.isSome }
  | _ => none

def advanceStep (main : FileMap N F) (c : CacheWorker N F) : Option (CacheWorker N F) :=
  match c.pc with
  -- the locked lookup in the main map
  | .missed name updateLocalMap =>
      match main name, updateLocalMap with
      | some f, true => some { c with pc := .inserting name f }
      | _, _ => some { c with pc := .outside }
  -- the lock is released, and the local map takes the file
  | .inserting name f =>
      c.fileMapLocal.map (fun m =>
        { c with fileMapLocal := some (Function.update m name (some f)), pc := .outside })
  | .outside => none

def refreshStep (s : CacheState N F W) : Option (CacheState N F W) :=
  match s.refresh with
  -- `post` to the io service of one worker
  | .posting u (w :: todo) =>
      let c := s.worker w
      some { s with
        refresh := .posting u todo
        worker := Function.update s.worker w { c with queue := c.queue ++ [.update u] } }
  -- only then the main map is written, under the lock
  | .posting u [] =>
      some { s with refresh := .idle, fileMap := Function.update s.fileMap u.name u.file }
  | .idle => none

/-- A step of one worker leaves everything else as it is. -/
def CacheState.setWorker (s : CacheState N F W) (w : W) (c : CacheWorker N F) : CacheState N F W :=
  { s with worker := Function.update s.worker w c }

def cacheStep (iosvcs : List W) (s : CacheState N F W) : CacheAction N F W → Option (CacheState N F W)
  | .start u =>
      match s.refresh with
      | .idle => some { s with refresh := .posting u iosvcs }
      | .posting _ _ => none
  | .refresh => refreshStep s
  | .execute w => (executeStep (s.worker w)).map (s.setWorker w)
  | .getFile w name => (getFileStep (s.worker w) name).map (s.setWorker w)
  | .advance w => (advanceStep s.fileMap (s.worker w)).map (s.setWorker w)

/-- The cache after `register_io_service` for every member of `iosvcs`, with
a main map already loaded. -/
def cacheMachine (iosvcs : List W) (loaded : FileMap N F) :
    Machine (CacheState N F W) (CacheAction N F W) where
  init := { fileMap := loaded, worker := fun w => { queue := List.replicate (iosvcs.count w) .create } }
  step := cacheStep iosvcs

/-! What each step can do: the proofs below go over these cases. -/

omit [DecidableEq W] in
theorem exec_cases {task : CacheTask N F} {l : Option (FileMap N F)} {m : FileMap N F}
    (h : task.exec l = some m) :
    task = .create ∧ m = (fun _ => none) ∨
      ∃ u l', task = .update u ∧ l = some l' ∧ m = Function.update l' u.name u.file := by
  cases task with
  | create => exact .inl ⟨rfl, (Option.some.inj h).symm⟩
  | update u =>
      cases l with
      | none => cases h
      | some l => exact .inr ⟨u, l, rfl, rfl, (Option.some.inj h).symm⟩

theorem execute_cases {c d : CacheWorker N F} (h : executeStep c = some d) :
    ∃ task queue m, c.pc = .outside ∧ c.queue = task :: queue ∧ task.exec c.fileMapLocal = some m ∧
      d = { c with fileMapLocal := some m, queue := queue } := by
  unfold executeStep at h
  cases hpc : c.pc with
  | outside =>
      cases hq : c.queue with
      | nil => simp [hpc, hq] at h
      | cons task queue =>
          simp only [hpc, hq] at h
          obtain ⟨m, hm, rfl⟩ := Option.map_eq_some_iff.mp h
          exact ⟨task, queue, m, rfl, rfl, hm, rfl⟩
  | missed _ _ => simp [hpc] at h
  | inserting _ _ => simp [hpc] at h

omit [DecidableEq N] in
theorem getFile_cases {c d : CacheWorker N F} {name : N} (h : getFileStep c name = some d) :
    c.pc = .outside ∧ (d = c ∨
      c.lookup name = none ∧ d = { c with pc := .missed name c.fileMapLocal.isSome }) := by
  unfold getFileStep at h
  cases hpc : c.pc with
  | outside =>
      simp only [hpc] at h
      cases hl : c.lookup name with
      | some f =>
          rw [hl] at h
          exact ⟨rfl, .inl (Option.some.inj h).symm⟩
      | none =>
          rw [hl] at h
          exact ⟨rfl, .inr ⟨rfl, (Option.some.inj h).symm⟩⟩
  | missed _ _ => simp [hpc] at h
  | inserting _ _ => simp [hpc] at h

theorem advance_cases {main : FileMap N F} {c d : CacheWorker N F} (h : advanceStep main c = some d) :
    (∃ name upd, c.pc = .missed name upd ∧ d = { c with pc := .outside }) ∨
      (∃ name f, c.pc = .missed name true ∧ main name = some f ∧
        d = { c with pc := .inserting name f }) ∨
      ∃ name f m, c.pc = .inserting name f ∧ c.fileMapLocal = some m ∧
        d = { c with fileMapLocal := some (Function.update m name (some f)), pc := .outside } := by
  unfold advanceStep at h
  cases hpc : c.pc with
  | outside => simp [hpc] at h
  | missed name upd =>
      simp only [hpc] at h
      cases hf : main name with
      | none =>
          rw [hf] at h
          exact .inl ⟨name, upd, rfl, (Option.some.inj h).symm⟩
      | some f =>
          rw [hf] at h
          cases upd with
          | false => exact .inl ⟨name, false, rfl, (Option.some.inj h).symm⟩
          | true => exact .inr (.inl ⟨name, f, rfl, hf, (Option.some.inj h).symm⟩)
  | inserting name f =>
      simp only [hpc] at h
      obtain ⟨m, hm, rfl⟩ := Option.map_eq_some_iff.mp h
      exact .inr (.inr ⟨name, f, m, rfl, hm, rfl⟩)

theorem refresh_cases {s t : CacheState N F W} (h : refreshStep s = some t) :
    (∃ u, s.refresh = .posting u [] ∧
      t = { s with refresh := .idle, fileMap := Function.update s.fileMap u.name u.file }) ∨
      ∃ u w todo, s.refresh = .posting u (w :: todo) ∧
        t = { s.setWorker w { s.worker w with queue := (s.worker w).queue ++ [.update u] } with
          refresh := .posting u todo } := by
  unfold refreshStep at h
  cases hr : s.refresh with
  | idle => simp [hr] at h
  | posting u todo =>
      cases todo with
      | nil =>
          simp only [hr, Option.some.injEq] at h
          exact .inl ⟨u, rfl, h.symm⟩
      | cons w todo =>
          simp only [hr, Option.some.injEq] at h
          exact .inr ⟨u, w, todo, rfl, h.symm⟩

theorem start_cases {iosvcs : List W} {s t : CacheState N F W} {u : FileUpdate N F}
    (h : cacheStep iosvcs s (.start u) = some t) :
    s.refresh = .idle ∧ t = { s with refresh := .posting u iosvcs } := by
  unfold cacheStep at h
  cases hr : s.refresh with
  | posting _ _ => simp [hr] at h
  | idle =>
      simp only [hr, Option.some.injEq] at h
      exact ⟨rfl, h.symm⟩

end Steps

/-! ## §3. Coherence, settled values and the invariant. -/

section Spec

variable {N F W : Type} [DecidableEq N] [DecidableEq W]

/-- The refresh thread is between operations and every queue is empty. -/
def CacheState.Quiescent (s : CacheState N F W) : Prop :=
  s.refresh = .idle ∧ ∀ w, (s.worker w).queue = []

instance [DecidableEq F] [Fintype W] (s : CacheState N F W) : Decidable s.Quiescent :=
  inferInstanceAs (Decidable (_ ∧ _))

/-- What a task leaves under a name it touches. -/
def CacheTask.leaves (n : N) : CacheTask N F → Option (Option F)
  | .create => some none
  | .update u => if u.name = n then some u.file else none

/-- What a queue leaves under a name: the last task that touches it decides. -/
def decided (n : N) : List (CacheTask N F) → Option (Option F)
  | [] => none
  | task :: queue => (decided n queue).or (task.leaves n)

/-- The entry of `n` once the `get_file` in progress has inserted. -/
def CacheWorker.held (c : CacheWorker N F) (n : N) : Option F :=
  match c.pc with
  | .inserting name f => if name = n then some f else c.lookup n
  | _ => c.lookup n

/-- The entry of `n` once the `get_file` in progress and the queue are done. -/
def CacheWorker.settled (c : CacheWorker N F) (n : N) : Option F :=
  (decided n c.queue).getD (c.held n)

/-- Worker `w` is about to refill from the main map a name whose removal it
has already executed, and the refresh thread has yet to erase the main map's
entry. -/
def CacheState.refillOvertakes (s : CacheState N F W) (w : W) : Bool :=
  match s.refresh, (s.worker w).pc with
  | .posting u todo, .missed n true =>
      u.name = n && u.file.isNone && w ∉ todo && (decided n (s.worker w).queue).isNone &&
        (s.fileMap n).isSome
  | _, _ => false

/-- The condition on a step: no refill overtakes a removal. -/
def RefillSafe (s : CacheState N F W) : CacheAction N F W → Prop
  | .advance w => s.refillOvertakes w = false
  | _ => True

instance (s : CacheState N F W) : (a : CacheAction N F W) → Decidable (RefillSafe s a)
  | .advance w => inferInstanceAs (Decidable (s.refillOvertakes w = false))
  | .start _ | .refresh | .execute _ | .getFile _ _ => inferInstanceAs (Decidable True)

/-- The settled values a worker may have for `n`. -/
def Allowed (iosvcs : List W) (s : CacheState N F W) (w : W) (n : N) (x : Option F) : Prop :=
  match s.refresh with
  | .idle => x = none ∨ x = s.fileMap n
  | .posting u todo =>
      if u.name = n then
        if w ∈ todo then x = none ∨ x = s.fileMap n ∨ x = u.file
        else w ∈ iosvcs → x = u.file
      else x = none ∨ x = s.fileMap n

/-- A `get_file` past its lookup still finds the local map as it left it. -/
def CacheWorker.PcOk (c : CacheWorker N F) : Prop :=
  match c.pc with
  | .outside => True
  | .missed n upd => c.lookup n = none ∧ c.fileMapLocal.isSome = upd
  | .inserting n _ => c.lookup n = none ∧ c.fileMapLocal.isSome = true

/-- The cache invariant. -/
structure CacheInv (iosvcs : List W) (s : CacheState N F W) : Prop where
  allowed : ∀ w n, Allowed iosvcs s w n ((s.worker w).settled n)
  pcOk : ∀ w, (s.worker w).PcOk
  unregistered : ∀ w, w ∉ iosvcs → (s.worker w).fileMapLocal = none ∧ (s.worker w).queue = []
  created : ∀ w ∈ iosvcs, (s.worker w).fileMapLocal = none → ∃ q, (s.worker w).queue = .create :: q
  todo : ∀ u todo, s.refresh = .posting u todo → todo ⊆ iosvcs

end Spec

/-! ## §4. Each step keeps the invariant. -/

section Invariant

variable {N F W : Type} [DecidableEq N] [DecidableEq W] {iosvcs : List W}

theorem decided_append (n : N) (q : List (CacheTask N F)) (task : CacheTask N F) :
    decided n (q ++ [task]) = (task.leaves n).or (decided n q) := by
  induction q with
  | nil => simp [decided]
  | cons t q ih => simp only [List.cons_append, decided, ih, Option.or_assoc]

theorem decided_replicate_create (n : N) (k : Nat) :
    decided n (List.replicate k (CacheTask.create : CacheTask N F)) = if k = 0 then none else some none := by
  induction k with
  | zero => rfl
  | succ k ih =>
      rw [List.replicate_succ, decided, ih]
      cases k <;> simp [CacheTask.leaves]

/-- Posting an update settles its name and no other. -/
theorem settled_post (c : CacheWorker N F) (u : FileUpdate N F) (n : N) :
    CacheWorker.settled { c with queue := c.queue ++ [.update u] } n
      = if u.name = n then u.file else c.settled n := by
  unfold CacheWorker.settled
  rw [decided_append]
  by_cases hn : u.name = n <;> simp [CacheTask.leaves, hn, CacheWorker.held, CacheWorker.lookup]

/-- Running the head of the queue settles nothing. -/
theorem settled_execute {c d : CacheWorker N F} (h : executeStep c = some d) (n : N) :
    d.settled n = c.settled n := by
  obtain ⟨task, queue, m, hpc, hq, hm, rfl⟩ := execute_cases h
  show (decided n queue).getD (CacheWorker.held _ n) = (decided n c.queue).getD (c.held n)
  rw [hq, decided]
  cases hd : decided n queue with
  | some x => rfl
  | none =>
      -- the head decides, and what it leaves is what it has written
      rw [Option.none_or, Option.getD_none]
      unfold CacheWorker.held
      simp only [hpc]
      rcases exec_cases hm with ⟨rfl, rfl⟩ | ⟨u, l, rfl, hl, rfl⟩
      · rfl
      -- an update writes under its own name only
      · by_cases hn : u.name = n
        · subst hn
          simp [CacheWorker.lookup, CacheTask.leaves]
        · simp [CacheWorker.lookup, CacheTask.leaves, hn, hl, Function.update_of_ne (Ne.symm hn)]

/-- Inserting what was read settles nothing. -/
theorem settled_insert {c : CacheWorker N F} {name : N} {f : F} {m : FileMap N F}
    (hpc : c.pc = .inserting name f) (hm : c.fileMapLocal = some m) (n : N) :
    CacheWorker.settled { c with fileMapLocal := some (Function.update m name (some f)),
                                 pc := .outside } n = c.settled n := by
  unfold CacheWorker.settled CacheWorker.held CacheWorker.lookup
  simp only [hpc, hm]
  by_cases hn : name = n
  · subst hn
    simp
  · simp [hn, Function.update_of_ne (Ne.symm hn)]

/-- The value read from the main map is all a `get_file` can settle, and only
under the name it looks for, while no queued task decides that name. -/
theorem settled_read {c : CacheWorker N F} {name : N} {f : F} (hpc : c.pc = .missed name true)
    (n : N) : CacheWorker.settled { c with pc := .inserting name f } n
      = if name = n ∧ decided n c.queue = none then some f else c.settled n := by
  unfold CacheWorker.settled CacheWorker.held CacheWorker.lookup
  simp only [hpc]
  cases hd : decided n c.queue <;> by_cases hn : name = n <;> simp [hn]

/-- A worker without a local map and without tasks settles nothing. -/
theorem CacheInv.settled_unregistered {s : CacheState N F W} (hI : CacheInv iosvcs s) {w : W}
    (hw : w ∉ iosvcs) (n : N) : (s.worker w).settled n = none := by
  obtain ⟨hl, hq⟩ := hI.unregistered w hw
  have hp := hI.pcOk w
  unfold CacheWorker.PcOk at hp
  unfold CacheWorker.settled CacheWorker.held CacheWorker.lookup
  rw [hq, hl]
  cases hpc : (s.worker w).pc with
  | inserting m f => simp [hpc, hl] at hp
  | _ => rfl

theorem cache_inv_init (loaded : FileMap N F) :
    CacheInv iosvcs (cacheMachine iosvcs loaded).init where
  allowed := by
    intro w n
    refine .inl ?_
    show (decided n (List.replicate (iosvcs.count w) CacheTask.create)).getD none = none
    -- a local map that is only created is empty
    rw [decided_replicate_create]
    split <;> rfl
  pcOk := fun _ => trivial
  unregistered := by
    intro w hw
    refine ⟨rfl, ?_⟩
    show List.replicate (iosvcs.count w) _ = []
    rw [List.count_eq_zero_of_not_mem hw]
    rfl
  created := by
    intro w hw _
    obtain ⟨k, hk⟩ := Nat.exists_eq_succ_of_ne_zero (List.count_pos_iff.mpr hw).ne'
    refine ⟨List.replicate k .create, ?_⟩
    show List.replicate (iosvcs.count w) _ = _
    rw [hk, List.replicate_succ]
  todo := by
    intro u todo h
    cases h

omit [DecidableEq N] in
/-- What holds of the changed worker and of all others. -/
theorem CacheState.forall_setWorker {s : CacheState N F W} {w : W} {c : CacheWorker N F}
    {Q : W → CacheWorker N F → Prop} (hself : Q w c) (hother : ∀ v, v ≠ w → Q v (s.worker v)) (v : W) :
    Q v ((s.setWorker w c).worker v) :=
  (Function.forall_update_iff s.worker Q).mpr ⟨hself, hother⟩ v

/-- A step of one worker keeps the invariant if the worker's own part does. -/
theorem CacheInv.setWorker {s : CacheState N F W} (hI : CacheInv iosvcs s) {w : W}
    {c : CacheWorker N F} (hall : ∀ n, Allowed iosvcs s w n (c.settled n)) (hpc : c.PcOk)
    (hun : w ∉ iosvcs → c.fileMapLocal = none ∧ c.queue = [])
    (hcr : w ∈ iosvcs → c.fileMapLocal = none → ∃ q, c.queue = .create :: q) :
    CacheInv iosvcs (s.setWorker w c) := by
  refine ⟨?_, ?_, ?_, ?_, hI.todo⟩
  · exact CacheState.forall_setWorker (Q := fun v c => ∀ n, Allowed iosvcs s v n (c.settled n)) hall
      fun v _ => hI.allowed v
  · exact CacheState.forall_setWorker (Q := fun _ c => c.PcOk) hpc fun v _ => hI.pcOk v
  · exact CacheState.forall_setWorker
      (Q := fun v c => v ∉ iosvcs → c.fileMapLocal = none ∧ c.queue = []) hun
      fun v _ => hI.unregistered v
  · exact CacheState.forall_setWorker
      (Q := fun v c => v ∈ iosvcs → c.fileMapLocal = none → ∃ q, c.queue = .create :: q) hcr
      fun v _ => hI.created v

theorem execute_inv {s t : CacheState N F W} {w : W} (hI : CacheInv iosvcs s)
    (h : cacheStep iosvcs s (.execute w) = some t) : CacheInv iosvcs t := by
  obtain ⟨d, hd, rfl⟩ := Option.map_eq_some_iff.mp h
  have hset := settled_execute hd
  obtain ⟨task, queue, m, hpc, hq, hm, rfl⟩ := execute_cases hd
  refine hI.setWorker ?_ ?_ ?_ ?_
  · intro n
    rw [hset n]
    exact hI.allowed w n
  · simp [CacheWorker.PcOk, hpc]
  · intro hw
    -- an unregistered worker has no task to run
    rw [(hI.unregistered w hw).2] at hq
    exact absurd hq (List.cons_ne_nil _ _).symm
  · intro _ hl
    exact absurd hl (by simp)

theorem getFile_inv {s t : CacheState N F W} {w : W} {name : N} (hI : CacheInv iosvcs s)
    (h : cacheStep iosvcs s (.getFile w name) = some t) : CacheInv iosvcs t := by
  obtain ⟨d, hd, rfl⟩ := Option.map_eq_some_iff.mp h
  obtain ⟨hpc, rfl | ⟨hl, rfl⟩⟩ := getFile_cases hd
  · exact hI.setWorker (hI.allowed w) (hI.pcOk w) (hI.unregistered w) (hI.created w)
  -- a miss writes nothing: what is settled stays
  · refine hI.setWorker ?_ ⟨hl, rfl⟩ (hI.unregistered w) (hI.created w)
    intro n
    have hset := hI.allowed w n
    unfold CacheWorker.settled CacheWorker.held at hset
    simp only [hpc] at hset
    exact hset

/-- **A read of the main map that meets the refill condition settles a value
that is allowed.** -/
theorem read_allowed {s : CacheState N F W} {w : W} {name : N} {f : F} (hI : CacheInv iosvcs s)
    (hg : RefillSafe s (.advance w)) (hpc : (s.worker w).pc = .missed name true)
    (hf : s.fileMap name = some f) (hd : decided name (s.worker w).queue = none) :
    Allowed iosvcs s w name (some f) := by
  have hall := hI.allowed w name
  have hp := hI.pcOk w
  unfold CacheWorker.PcOk at hp
  simp only [hpc] at hp
  -- the lookup missed, so nothing is settled for the name
  have hnone : (s.worker w).settled name = none := by
    unfold CacheWorker.settled CacheWorker.held
    simp only [hpc, hd, Option.getD_none]
    exact hp.1
  rw [hnone] at hall
  unfold Allowed at hall ⊢
  cases hr : s.refresh with
  | idle => exact .inr hf.symm
  | posting u todo =>
      simp only [hr] at hall ⊢
      by_cases hn : u.name = name
      · by_cases hw : w ∈ todo
        · simp only [hn, hw, if_true]
          exact .inr (.inl hf.symm)
        · simp only [hn, hw, if_true, if_false] at hall ⊢
          intro hreg
          -- an executed update that left no entry is a removal
          have hu : u.file = none := (hall hreg).symm
          unfold RefillSafe CacheState.refillOvertakes at hg
          simp [hr, hpc, hn, hu, hw, hd, hf] at hg
      · simp only [hn, if_false]
        exact .inr hf.symm

theorem advance_inv {s t : CacheState N F W} {w : W} (hI : CacheInv iosvcs s)
    (hg : RefillSafe s (.advance w)) (h : cacheStep iosvcs s (.advance w) = some t) :
    CacheInv iosvcs t := by
  obtain ⟨d, hd, rfl⟩ := Option.map_eq_some_iff.mp h
  have hp := hI.pcOk w
  unfold CacheWorker.PcOk at hp
  rcases advance_cases hd with ⟨name, upd, hpc, rfl⟩ | ⟨name, f, hpc, hf, rfl⟩ |
    ⟨name, f, m, hpc, hm, rfl⟩
  · -- leaving `get_file` without a value settles nothing
    refine hI.setWorker ?_ trivial (hI.unregistered w) (hI.created w)
    intro n
    have hset := hI.allowed w n
    unfold CacheWorker.settled CacheWorker.held at hset
    simp only [hpc] at hset
    exact hset
  -- the read of the main map, where the refill condition is needed
  · simp only [hpc] at hp
    refine hI.setWorker ?_ hp (hI.unregistered w) (hI.created w)
    intro n
    rw [settled_read hpc n]
    by_cases hn : name = n ∧ decided n (s.worker w).queue = none
    · obtain ⟨rfl, hdec⟩ := hn
      rw [if_pos ⟨rfl, hdec⟩]
      exact read_allowed hI hg hpc hf hdec
    · rw [if_neg hn]
      exact hI.allowed w n
  -- the local insert: its value was settled by the read
  · refine hI.setWorker ?_ trivial ?_ ?_
    · intro n
      rw [settled_insert hpc hm n]
      exact hI.allowed w n
    · intro hw
      rw [(hI.unregistered w hw).1] at hm
      exact absurd hm (by simp)
    · intro _ hl
      exact absurd hl (by simp)

theorem start_inv {s t : CacheState N F W} {u : FileUpdate N F} (hI : CacheInv iosvcs s)
    (h : cacheStep iosvcs s (.start u) = some t) : CacheInv iosvcs t := by
  obtain ⟨hr, rfl⟩ := start_cases h
  refine ⟨?_, hI.pcOk, hI.unregistered, hI.created, ?_⟩
  · intro w n
    have hall := hI.allowed w n
    unfold Allowed at hall ⊢
    simp only [hr] at hall ⊢
    -- only the name of the update gets a new value that is allowed
    by_cases hn : u.name = n
    · by_cases hw : w ∈ iosvcs
      · simp only [hn, hw, if_true]
        exact hall.imp_right .inl
      · simp [hn, hw]
    · simp only [hn, if_false]
      exact hall
  · intro v todo hv
    obtain ⟨-, rfl⟩ := RefreshPc.posting.inj hv
    exact List.Subset.refl _

theorem refresh_inv {s t : CacheState N F W} (hI : CacheInv iosvcs s)
    (h : refreshStep s = some t) : CacheInv iosvcs t := by
  rcases refresh_cases h with ⟨u, hr, rfl⟩ | ⟨u, w, todo, hr, rfl⟩
  · -- the write to the main map: every registered worker has the update
    refine ⟨?_, hI.pcOk, hI.unregistered, hI.created, by intro v todo hv; cases hv⟩
    intro w n
    have hall := hI.allowed w n
    unfold Allowed at hall ⊢
    simp only [hr] at hall ⊢
    by_cases hn : u.name = n
    · subst hn
      rw [Function.update_self]
      by_cases hw : w ∈ iosvcs
      · simp only [List.not_mem_nil, if_true, if_false] at hall
        exact .inr (hall hw)
      · exact .inl (hI.settled_unregistered hw _)
    · rw [Function.update_of_ne (Ne.symm hn)]
      simp only [hn, if_false] at hall
      exact hall
  -- one more worker has the update in its queue
  · have hsub := hI.todo u (w :: todo) hr
    have hw : w ∈ iosvcs := hsub List.mem_cons_self
    have hself : (s.setWorker w { s.worker w with
        queue := (s.worker w).queue ++ [.update u] }).worker w = _ := Function.update_self ..
    have hother : ∀ v, v ≠ w → (s.setWorker w { s.worker w with
        queue := (s.worker w).queue ++ [.update u] }).worker v = s.worker v :=
      fun v hv => Function.update_of_ne hv ..
    refine ⟨?_, ?_, ?_, ?_, ?_⟩
    · intro v n
      have hall := hI.allowed v n
      unfold Allowed at hall ⊢
      simp only [hr] at hall ⊢
      by_cases hv : v = w
      · subst hv
        rw [hself, settled_post]
        by_cases hn : u.name = n
        · simp [hn]
        · simp only [hn, if_false] at hall ⊢
          exact hall
      · rw [hother v hv]
        simp only [List.mem_cons, hv, false_or] at hall
        exact hall
    · exact CacheState.forall_setWorker (Q := fun _ c => c.PcOk) (hI.pcOk w) fun v _ => hI.pcOk v
    · intro v hv
      simp only [hother v (fun e => hv (e ▸ hw))]
      exact hI.unregistered v hv
    · intro v hv
      by_cases hvw : v = w
      · subst hvw
        simp only [hself]
        intro hl
        obtain ⟨q, hq⟩ := hI.created v hv hl
        exact ⟨q ++ [.update u], by rw [hq]; rfl⟩
      · simp only [hother v hvw]
        exact hI.created v hv
    · intro u' todo' hv
      obtain ⟨-, rfl⟩ := RefreshPc.posting.inj hv
      exact fun x hx => hsub (List.mem_cons_of_mem _ hx)

theorem cache_inv_step {s t : CacheState N F W} {a : CacheAction N F W} (hI : CacheInv iosvcs s)
    (hg : RefillSafe s a) (h : cacheStep iosvcs s a = some t) : CacheInv iosvcs t := by
  cases a with
  | start u => exact start_inv hI h
  | refresh => exact refresh_inv hI h
  | execute w => exact execute_inv hI h
  | getFile w name => exact getFile_inv hI h
  | advance w => exact advance_inv hI hg h

/-- **The cache invariant holds along every run whose refills do not overtake
a removal.** -/
theorem cache_inv_reach {loaded : FileMap N F} {s : CacheState N F W}
    (h : (cacheMachine iosvcs loaded).ReachWhen RefillSafe s) : CacheInv iosvcs s :=
  h.invariant (cache_inv_init loaded) (fun _ _ _ hI hg hs => cache_inv_step hI hg hs)

/-- A queued task always finds what it needs: no update runs before the task
that creates the local map. -/
theorem execute_defined {s : CacheState N F W} (hI : CacheInv iosvcs s) {w : W}
    (hpc : (s.worker w).pc = .outside) (hq : (s.worker w).queue ≠ []) :
    (executeStep (s.worker w)).isSome := by
  have hw : w ∈ iosvcs := by
    by_contra hw
    exact hq (hI.unregistered w hw).2
  obtain ⟨task, queue, hcons⟩ := List.exists_cons_of_ne_nil hq
  unfold executeStep
  simp only [hpc, hcons, Option.isSome_map]
  cases hl : (s.worker w).fileMapLocal with
  | some m => cases task <;> rfl
  | none =>
      -- without a local map the head of the queue is the task that creates it
      obtain ⟨q, hq'⟩ := hI.created w hw hl
      rw [hq', List.cons.injEq] at hcons
      rw [← hcons.1]
      rfl

end Invariant

/-! ## §5. Coherence. -/

section Coherence

variable {N F W : Type} [DecidableEq N] [DecidableEq W] {iosvcs : List W}

/-- With an empty queue and the refresh thread idle, a local entry is settled. -/
theorem CacheInv.local_entry {s : CacheState N F W} (hI : CacheInv iosvcs s) (hs : s.Quiescent)
    {w : W} {name : N} {f : F} (hf : (s.worker w).lookup name = some f) :
    s.fileMap name = some f := by
  obtain ⟨hidle, hqueue⟩ := hs
  have hset : (s.worker w).settled name = some f := by
    unfold CacheWorker.settled CacheWorker.held
    rw [hqueue w]
    have hp := hI.pcOk w
    unfold CacheWorker.PcOk at hp
    cases hpc : (s.worker w).pc with
    | inserting n g =>
        -- the name being inserted has no local entry
        simp only [hpc] at hp
        have hne : n ≠ name := by
          rintro rfl
          rw [hp.1] at hf
          cases hf
        simp only [decided, Option.getD_none, if_neg hne]
        exact hf
    | _ => exact hf
  have hall := hI.allowed w name
  unfold Allowed at hall
  rw [hset, hidle] at hall
  rcases hall with h | h
  · cases h
  · exact h.symm

/-- **LOCAL CACHES ARE COHERENT.**  In every quiescent state that a run with
safe refills reaches, each local entry is the main map's entry, and so every
worker serves exactly the main map. -/
theorem cache_coherent (loaded : FileMap N F) (s : CacheState N F W)
    (h : (cacheMachine iosvcs loaded).ReachWhen RefillSafe s) (hs : s.Quiescent) (w : W) (name : N) :
    (∀ f, (s.worker w).lookup name = some f → s.fileMap name = some f) ∧
    (s.worker w).getFile s.fileMap name = s.fileMap name := by
  have hlocal : ∀ f, (s.worker w).lookup name = some f → s.fileMap name = some f :=
    fun f hf => (cache_inv_reach h).local_entry hs hf
  refine ⟨hlocal, ?_⟩
  unfold CacheWorker.getFile
  cases hl : (s.worker w).lookup name with
  | none => rfl
  | some f => exact (hlocal f hl).symm

/-- A file that is added while the worker is in no `get_file` and then served
leaves equal maps. -/
theorem cache_coherent_added :
    ∃ s : CacheState Unit Bool Unit,
      (cacheMachine [()] (fun _ => none)).ReachWhen RefillSafe s ∧ s.Quiescent ∧
        (s.worker ()).lookup () = some true ∧ (s.worker ()).getFile s.fileMap () = s.fileMap () := by
  obtain ⟨s, hs, hp⟩ := (cacheMachine [()] (fun _ => none)).exists_reachWhen_of_run RefillSafe
    [.execute (), .start ⟨(), some true⟩, .refresh, .getFile () (), .advance (), .execute (), .refresh]
    (fun s => s.Quiescent ∧ (s.worker ()).lookup () = some true) (by decide)
  exact ⟨s, hs, hp.1, hp.2, (cache_coherent (fun _ => none) s hs hp.1 () ()).2⟩

/-- **A REMOVED FILE IS SERVED.**  The worker executes the posted removal,
misses the name and refills it from the main map before `remove_file` erases
it there. -/
theorem cache_serves_removed :
    ∃ s : CacheState Unit Bool Unit,
      (cacheMachine [()] (fun _ => none)).Reach s ∧ s.Quiescent ∧
        s.fileMap () = none ∧ (s.worker ()).lookup () = some true := by
  obtain ⟨s, hs, hp⟩ := (cacheMachine [()] (fun _ => none)).exists_reach_of_run
    [.execute (), .start ⟨(), some true⟩, .refresh, .refresh, .execute (),
      .start ⟨(), none⟩, .refresh, .execute (), .getFile () (), .advance (), .advance (), .refresh]
    (fun s => s.Quiescent ∧ s.fileMap () = none ∧ (s.worker ()).lookup () = some true) (by decide)
  exact ⟨s, hs, hp⟩

end Coherence

/-! ## §6. The names of the cached files. -/

section Names

variable {N F W : Type} [DecidableEq N] [DecidableEq W] {iosvcs : List W} {P : N → Prop}

/-- Everything a map holds is under a name with `P`. -/
def FileMap.Names (P : N → Prop) (m : FileMap N F) : Prop := ∀ n f, m n = some f → P n

/-- An update that assigns does it under a name with `P`. -/
def FileUpdate.Names (P : N → Prop) (u : FileUpdate N F) : Prop := ∀ f, u.file = some f → P u.name

/-- All maps, queued updates and values in transit are under names with `P`. -/
structure CacheNames (P : N → Prop) (s : CacheState N F W) : Prop where
  main : s.fileMap.Names P
  posting : ∀ u todo, s.refresh = .posting u todo → u.Names P
  maps : ∀ w m, (s.worker w).fileMapLocal = some m → m.Names P
  queued : ∀ w u, .update u ∈ (s.worker w).queue → u.Names P
  inserting : ∀ w n f, (s.worker w).pc = .inserting n f → P n

theorem FileMap.Names.update {m : FileMap N F} (h : m.Names P) {u : FileUpdate N F} (hu : u.Names P) :
    FileMap.Names P (Function.update m u.name u.file) := by
  intro n f hn
  by_cases hnu : n = u.name
  · subst hnu
    rw [Function.update_self] at hn
    exact hu f hn
  · rw [Function.update_of_ne hnu] at hn
    exact h n f hn

omit [DecidableEq N] in
theorem CacheNames.setWorker {s : CacheState N F W} (h : CacheNames P s) {w : W}
    {c : CacheWorker N F} (hm : ∀ m, c.fileMapLocal = some m → m.Names P)
    (hq : ∀ u, .update u ∈ c.queue → u.Names P) (hi : ∀ n f, c.pc = .inserting n f → P n) :
    CacheNames P (s.setWorker w c) := by
  refine ⟨h.main, h.posting, ?_, ?_, ?_⟩
  · exact CacheState.forall_setWorker
      (Q := fun _ c => ∀ m, c.fileMapLocal = some m → m.Names P) hm fun v _ => h.maps v
  · exact CacheState.forall_setWorker
      (Q := fun _ c => ∀ u, .update u ∈ c.queue → u.Names P) hq fun v _ => h.queued v
  · exact CacheState.forall_setWorker
      (Q := fun _ c => ∀ n f, c.pc = .inserting n f → P n) hi fun v _ => h.inserting v

theorem names_refresh {s t : CacheState N F W} (h : CacheNames P s) (hs : refreshStep s = some t) :
    CacheNames P t := by
  rcases refresh_cases hs with ⟨u, hr, rfl⟩ | ⟨u, w, todo, hr, rfl⟩
  · have hu := h.posting u [] hr
    exact ⟨h.main.update hu, (by intro v todo hv; cases hv), h.maps, h.queued, h.inserting⟩
  · have hu := h.posting u (w :: todo) hr
    have hqueue : ∀ v, .update v ∈ (s.worker w).queue ++ [.update u] → v.Names P := by
      intro v hv
      rcases List.mem_append.mp hv with hv | hv
      · exact h.queued w v hv
      · obtain rfl : v = u := by simpa using hv
        exact hu
    have hw := h.setWorker (w := w) (c := { s.worker w with queue := (s.worker w).queue ++ [.update u] })
      (h.maps w) hqueue (h.inserting w)
    refine ⟨hw.main, ?_, hw.maps, hw.queued, hw.inserting⟩
    intro v rest hv
    obtain ⟨rfl, -⟩ := RefreshPc.posting.inj hv
    exact hu

theorem names_execute {s : CacheState N F W} {w : W} (h : CacheNames P s) {d : CacheWorker N F}
    (hd : executeStep (s.worker w) = some d) : CacheNames P (s.setWorker w d) := by
  obtain ⟨task, queue, m, hpc, hq, hm, rfl⟩ := execute_cases hd
  have hqueue : ∀ u, .update u ∈ task :: queue → u.Names P := by
    intro u hu
    exact h.queued w u (by rw [hq]; exact hu)
  refine h.setWorker ?_ (fun u hu => hqueue u (List.mem_cons_of_mem _ hu)) (h.inserting w)
  intro m' hm'
  obtain rfl : m = m' := Option.some.inj hm'
  rcases exec_cases hm with ⟨-, rfl⟩ | ⟨u, l, rfl, hl, rfl⟩
  · intro n f hn
    cases hn
  · exact (h.maps w l hl).update (hqueue u List.mem_cons_self)

theorem names_advance {s : CacheState N F W} {w : W} (h : CacheNames P s) {d : CacheWorker N F}
    (hd : advanceStep s.fileMap (s.worker w) = some d) : CacheNames P (s.setWorker w d) := by
  rcases advance_cases hd with ⟨name, upd, hpc, rfl⟩ | ⟨name, f, hpc, hf, rfl⟩ |
    ⟨name, f, m, hpc, hm, rfl⟩
  · exact h.setWorker (h.maps w) (h.queued w) (by intro n f hn; cases hn)
  -- the name comes from the main map, which has an entry for it
  · refine h.setWorker (h.maps w) (h.queued w) ?_
    intro n g hn
    obtain ⟨rfl, rfl⟩ := GetFilePc.inserting.inj hn
    exact h.main _ _ hf
  · refine h.setWorker ?_ (h.queued w) (by intro n g hn; cases hn)
    intro m' hm'
    obtain rfl : Function.update m name (some f) = m' := Option.some.inj hm'
    exact (h.maps w m hm).update (u := ⟨name, some f⟩) (fun _ _ => h.inserting w name f hpc)

theorem names_step {s t : CacheState N F W} {a : CacheAction N F W} (h : CacheNames P s)
    (hstart : ∀ u, a = .start u → u.Names P) (hs : cacheStep iosvcs s a = some t) :
    CacheNames P t := by
  cases a with
  | start u =>
      obtain ⟨-, rfl⟩ := start_cases hs
      refine ⟨h.main, ?_, h.maps, h.queued, h.inserting⟩
      intro v todo hv
      obtain ⟨rfl, -⟩ := RefreshPc.posting.inj hv
      exact hstart u rfl
  | refresh => exact names_refresh h hs
  | execute w =>
      obtain ⟨d, hd, rfl⟩ := Option.map_eq_some_iff.mp hs
      exact names_execute h hd
  | getFile w name =>
      obtain ⟨d, hd, rfl⟩ := Option.map_eq_some_iff.mp hs
      obtain ⟨hpc, rfl | ⟨-, rfl⟩⟩ := getFile_cases hd
      · exact h.setWorker (h.maps w) (h.queued w) (h.inserting w)
      · exact h.setWorker (h.maps w) (h.queued w) (by intro n f hn; cases hn)
  | advance w =>
      obtain ⟨d, hd, rfl⟩ := Option.map_eq_some_iff.mp hs
      exact names_advance h hd

theorem names_init {loaded : FileMap N F} (h : loaded.Names P) :
    CacheNames P (cacheMachine (W := W) iosvcs loaded).init where
  main := h
  posting := fun _ _ hu => by cases hu
  maps := fun _ _ hm => by cases hm
  queued := fun _ _ hu => by cases List.eq_of_mem_replicate hu
  inserting := fun _ _ _ hn => by cases hn

/-- **If the loaded names and the names of all updates have `P`, then so has
everything a worker ever serves.** -/
theorem names_reach {g : CacheState N F W → CacheAction N F W → Prop} {loaded : FileMap N F}
    (hloaded : loaded.Names P)
    (hstart : ∀ s u, CacheNames P s → g s (.start u) → u.Names P) {s : CacheState N F W}
    (h : (cacheMachine iosvcs loaded).ReachWhen g s) : CacheNames P s := by
  refine h.invariant (names_init hloaded) ?_
  intro s a t hs hg ht
  exact names_step hs (fun u ha => hstart s u hs (ha ▸ hg)) ht

omit [DecidableEq N] [DecidableEq W] in
theorem CacheNames.lookup {s : CacheState N F W} (h : CacheNames P s) {w : W} {n : N} {f : F}
    (hf : (s.worker w).lookup n = some f) : P n := by
  obtain ⟨m, hm, hn⟩ := Option.bind_eq_some_iff.mp hf
  exact h.maps w m hm n f hn

end Names

end Petrel
