/-
  Petrel.Core.RefreshUpdates — a refresh pass as updates of the file cache.

  The directory routes are safe for every sequence of updates that the refresh
  thread may start: a name that is assigned is in the map already, or below a
  registered directory.  The pass itself is a function from maps to maps.  Here
  it is taken apart into such updates, and these are run by the cache with its
  workers, and by the bootstrap.

  Main results:
    * `refreshPass_steps` — a pass is a sequence of updates.
    * `refreshPass_reach` — the cache has a run that makes the pass.
    * `refreshPass_boot`  — and so has a bootstrap.
-/

import Petrel.Core.DirectoryRoutes
import Petrel.Core.FileRefresh

namespace Petrel

open Framework Relation

/-! ## §1. The updates of a pass. -/

/-- The main map before and after one update of the refresh thread. -/
def RefreshStep (c : FileCache) (m m' : MainMap) : Prop :=
  ∃ u : FileUpdate Bytes CachedFile, Refreshes c m u ∧ m' = Function.update m u.name u.file

section Pass

variable {c : FileCache}

/-- `add_file` of a name that the refresh thread may assign. -/
theorem addFile_steps {m : MainMap} {name : Bytes}
    (hname : (m name).isSome = true ∨ ∃ dir ∈ c.directories, Below dir name) (node : FsNode) :
    ReflTransGen (RefreshStep c) m (addFile m name node) := by
  unfold addFile
  cases node.load with
  | none => exact .refl
  | some f => exact .single ⟨⟨name, some f⟩, fun _ _ => hname, rfl⟩

/-- An entry that is no directory is added, or is known. -/
theorem scanFile_steps (m : MainMap) {name : Bytes} (hname : ∃ dir ∈ c.directories, Below dir name)
    (node : FsNode) :
    ReflTransGen (RefreshStep c) m (if (m name).isNone then addFile m name node else m) := by
  split
  · exact addFile_steps (.inr hname) node
  · exact .refl

mutual

/-- **A scan adds one file after the other.** -/
theorem scan_steps (node : FsNode) (name : Bytes) (m : MainMap)
    (hbelow : ∀ k, Below name k → ∃ dir ∈ c.directories, Below dir k) :
    ReflTransGen (RefreshStep c) m (node.scan name m).2 := by
  match node with
  | .directory entries =>
      unfold FsNode.scan
      exact scanEntries_steps entries name m hbelow
  | .file f =>
      unfold FsNode.scan
      exact .refl
  | .other =>
      unfold FsNode.scan
      exact .refl

theorem scanEntries_steps (entries : List (EntryName × FsNode)) (name : Bytes) (m : MainMap)
    (hbelow : ∀ k, Below name k → ∃ dir ∈ c.directories, Below dir k) :
    ReflTransGen (RefreshStep c) m (scanEntries name entries m) := by
  match entries with
  | [] =>
      unfold scanEntries
      exact .refl
  | (e, .directory sub) :: rest =>
      unfold scanEntries
      refine (scan_steps (.directory sub) (entryPath name e.1) m ?_).trans
        (scanEntries_steps rest name _ hbelow)
      exact fun k hk => hbelow k hk.up
  | (e, .file f) :: rest =>
      unfold scanEntries
      exact (scanFile_steps m (hbelow _ (below_entryPath name e)) (.file f)).trans
        (scanEntries_steps rest name _ hbelow)
  | (e, .other) :: rest =>
      unfold scanEntries
      exact (scanFile_steps m (hbelow _ (below_entryPath name e)) .other).trans
        (scanEntries_steps rest name _ hbelow)

end

/-- The scans of the registered directories. -/
theorem scanAll_steps (fs : Snapshot) {dirs : List Bytes} (hdirs : dirs ⊆ c.directories)
    (m : MainMap) : ReflTransGen (RefreshStep c) m (dirs.foldl fs.scanDirectory m) := by
  induction dirs generalizing m with
  | nil => exact .refl
  | cons dir dirs ih =>
      obtain ⟨hdir, hrest⟩ := List.cons_subset.mp hdirs
      refine ReflTransGen.trans ?_ (ih hrest (fs.scanDirectory m dir))
      unfold Snapshot.scanDirectory
      cases fs.lookup dir with
      | none => exact .refl
      | some node => exact scan_steps node dir m (fun k hk => ⟨dir, hdir, hk⟩)

/-- The loads of the changed files: no name leaves the map meanwhile. -/
theorem addFile_foldl_steps (fs : Snapshot) {names : List Bytes} {m : MainMap}
    (hnames : ∀ k ∈ names, (m k).isSome = true) :
    ReflTransGen (RefreshStep c) m (names.foldl fs.addFile m) := by
  induction names generalizing m with
  | nil => exact .refl
  | cons name names ih =>
      have hadded : ∀ k ∈ names, (fs.addFile m name k).isSome = true := by
        intro k hk
        have hsome := hnames k (List.mem_cons_of_mem name hk)
        rw [addFile_apply]
        split
        · rename_i heq
          subst heq
          rw [Option.isSome_or, hsome, Bool.or_true]
        · exact hsome
      refine ReflTransGen.trans ?_ (ih hadded)
      unfold Snapshot.addFile
      cases fs.lookup name with
      | none => exact .refl
      | some node => exact addFile_steps (.inl (hnames name List.mem_cons_self)) node

/-- A removal assigns nothing. -/
theorem removeFile_foldl_steps (names : List Bytes) (m : MainMap) :
    ReflTransGen (RefreshStep c) m (names.foldl removeFile m) := by
  induction names generalizing m with
  | nil => exact .refl
  | cons name names ih =>
      refine ReflTransGen.head ⟨⟨name, none⟩, ?_, rfl⟩ (ih _)
      intro f hf
      cases hf

/-- **A PASS IS A SEQUENCE OF UPDATES** that the refresh thread may start, each in
the map that the ones before it have left. -/
theorem refreshPass_steps (fs : Snapshot) {dirs : List Bytes} (hdirs : dirs ⊆ c.directories)
    (m : MainMap) (it : Iteration (dirs.foldl fs.scanDirectory m)) :
    ReflTransGen (RefreshStep c) m (refreshPass fs dirs m it) := by
  refine (scanAll_steps fs hdirs m).trans ((addFile_foldl_steps fs ?_).trans
    (removeFile_foldl_steps _ _))
  -- what is loaded again was found in the map
  exact fun k hk => (it.complete k).mp (List.mem_filter.mp hk).1

end Pass

/-! ## §2. The pass of a running cache. -/

section Running

variable {W : Type} [DecidableEq W] {iosvcs : List W} {c : FileCache}

omit [DecidableEq W] in
/-- Only the start of an update has a condition. -/
theorem refreshesOnly_refresh (s : CacheState Bytes CachedFile W) : RefreshesOnly c s .refresh := by
  intro u hu
  cases hu

/-- The refresh thread posts an update to the rest of the workers and writes
the main map. -/
theorem posting_reach {s : CacheState Bytes CachedFile W}
    (h : (cacheMachine iosvcs c.fileMap).ReachWhen (RefreshesOnly c) s)
    {u : FileUpdate Bytes CachedFile} {todo : List W} (hposting : s.refresh = .posting u todo) :
    ∃ t, (cacheMachine iosvcs c.fileMap).ReachWhen (RefreshesOnly c) t ∧ t.refresh = .idle ∧
      t.fileMap = Function.update s.fileMap u.name u.file := by
  induction todo generalizing s with
  | nil =>
      have hwrite : (cacheMachine iosvcs c.fileMap).step s .refresh = some { s with
          refresh := .idle
          fileMap := Function.update s.fileMap u.name u.file } := by
        show refreshStep s = _
        unfold refreshStep
        rw [hposting]
      exact ⟨_, .step h (refreshesOnly_refresh s) hwrite, rfl, rfl⟩
  | cons w todo ih =>
      have hpost : (cacheMachine iosvcs c.fileMap).step s .refresh = some { s with
          refresh := .posting u todo
          worker := Function.update s.worker w
            { s.worker w with queue := (s.worker w).queue ++ [.update u] } } := by
        show refreshStep s = _
        unfold refreshStep
        rw [hposting]
      have hreach := Machine.ReachWhen.step h (refreshesOnly_refresh s) hpost
      obtain ⟨t, ht, hidle, hmap⟩ := ih hreach rfl
      exact ⟨t, ht, hidle, hmap⟩

/-- One update from its start to its end. -/
theorem refreshStep_reach {s : CacheState Bytes CachedFile W}
    (h : (cacheMachine iosvcs c.fileMap).ReachWhen (RefreshesOnly c) s) (hidle : s.refresh = .idle)
    {m : MainMap} (hstep : RefreshStep c s.fileMap m) :
    ∃ t, (cacheMachine iosvcs c.fileMap).ReachWhen (RefreshesOnly c) t ∧ t.refresh = .idle ∧
      t.fileMap = m := by
  obtain ⟨u, hu, rfl⟩ := hstep
  have hallowed : RefreshesOnly c s (.start u) := by
    intro v hv
    obtain rfl := CacheAction.start.inj hv
    exact hu
  have hstart : (cacheMachine iosvcs c.fileMap).step s (.start u) =
      some { s with refresh := .posting u iosvcs } := by
    show cacheStep iosvcs s (.start u) = _
    unfold cacheStep
    rw [hidle]
  have hreach := Machine.ReachWhen.step h hallowed hstart
  exact posting_reach hreach rfl

theorem refreshSteps_reach {s : CacheState Bytes CachedFile W}
    (h : (cacheMachine iosvcs c.fileMap).ReachWhen (RefreshesOnly c) s) (hidle : s.refresh = .idle)
    {m : MainMap} (hsteps : ReflTransGen (RefreshStep c) s.fileMap m) :
    ∃ t, (cacheMachine iosvcs c.fileMap).ReachWhen (RefreshesOnly c) t ∧ t.refresh = .idle ∧
      t.fileMap = m := by
  induction hsteps with
  | refl => exact ⟨s, h, hidle, rfl⟩
  | tail _ hstep ih =>
      obtain ⟨t, ht, htidle, rfl⟩ := ih
      exact refreshStep_reach ht htidle hstep

/-- **THE CACHE MAKES THE PASS**: from every state in which the refresh thread is
between operations it goes on, through updates that it may start, to one with
the map that the pass computes. -/
theorem refreshPass_reach {s : CacheState Bytes CachedFile W}
    (h : (cacheMachine iosvcs c.fileMap).ReachWhen (RefreshesOnly c) s) (hidle : s.refresh = .idle)
    (fs : Snapshot) {dirs : List Bytes} (hdirs : dirs ⊆ c.directories)
    (it : Iteration (dirs.foldl fs.scanDirectory s.fileMap)) :
    ∃ t, (cacheMachine iosvcs c.fileMap).ReachWhen (RefreshesOnly c) t ∧ t.refresh = .idle ∧
      t.fileMap = refreshPass fs dirs s.fileMap it :=
  refreshSteps_reach h hidle (refreshPass_steps fs hdirs s.fileMap it)

end Running

/-! ## §3. The pass of a bootstrap. -/

/-- The server with another main map. -/
def ServerImpl.withFileMap (srv : ServerImpl) (m : MainMap) : ServerImpl :=
  { srv with fileCache := { srv.fileCache with fileMap := m } }

/-- Before an io service is registered an update is one event. -/
theorem refreshSteps_boot (srv : ServerImpl) {m m' : MainMap}
    (hsteps : ReflTransGen (RefreshStep srv.fileCache) m m') :
    ∃ events, CleanBoot (srv.withFileMap m) events ∧
      events.foldl ServerImpl.boot (srv.withFileMap m) = srv.withFileMap m' := by
  induction hsteps using ReflTransGen.head_induction_on with
  | refl => exact ⟨[], trivial, rfl⟩
  | head hstep _ ih =>
      obtain ⟨u, hu, rfl⟩ := hstep
      obtain ⟨events, hclean, hrun⟩ := ih
      exact ⟨.refresh u :: events, ⟨hu, hclean⟩, hrun⟩

/-- **A BOOTSTRAP MAKES THE PASS** through clean events. -/
theorem refreshPass_boot (srv : ServerImpl) (fs : Snapshot) {dirs : List Bytes}
    (hdirs : dirs ⊆ srv.fileCache.directories)
    (it : Iteration (dirs.foldl fs.scanDirectory srv.fileCache.fileMap)) :
    ∃ events, CleanBoot srv events ∧ events.foldl ServerImpl.boot srv =
      srv.withFileMap (refreshPass fs dirs srv.fileCache.fileMap it) :=
  refreshSteps_boot srv (refreshPass_steps fs hdirs srv.fileCache.fileMap it)

end Petrel
