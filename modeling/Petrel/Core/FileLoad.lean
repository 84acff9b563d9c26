/-
  Petrel.Core.FileLoad — a file is loaded while other processes change it.

  The `file` ctor makes one system call after the other: the path exists, it
  is a regular file, its size, its time, `open`, and the reads up to the end
  of the file.  `add_file` then puts the object into the map.  Between two
  calls any process may write, truncate, replace or remove the file, also by a
  node of another kind; a handle stays with the inode it was opened for.

  Main results:
    * `body_eq_take_iff`      — the body of a response stays inside the buffer
      if and only if the size is at most the length of the data.
    * `cut_short_is_cached`   — a read that meets the end of the file before
      the size puts an object into the cache that promises too much.
    * `cached_size_le_data`   — without such a read no object does.
-/

import Petrel.Core.FileCache

namespace Petrel

open Framework

/-! ## §1. What a file object promises. -/

/-- A file object has the bytes it promises. -/
def CachedFile.Whole (f : CachedFile) : Prop := f.size ≤ f.data.length

/-- **The body of a response stays inside the loaded buffer if and only if the
object has what it promises.** -/
theorem body_eq_take_iff (f : CachedFile) :
    (∀ behind, f.body behind = f.data.take f.size) ↔ f.Whole := by
  constructor
  · intro h
    -- the two sides have different lengths if bytes are missing
    have hlen := congrArg List.length (h (fun _ => 0))
    simp only [CachedFile.body, List.length_map, List.length_range, List.length_take] at hlen
    show f.size ≤ f.data.length
    omega
  · intro h behind
    have hsize : f.size ≤ f.data.length := h
    refine List.ext_getElem ?_ ?_
    · simp only [CachedFile.body, List.length_map, List.length_range, List.length_take]
      omega
    · intro i h1 h2
      have hi : i < f.data.length := by
        rw [List.length_take] at h2
        omega
      simp [CachedFile.body, List.getElem?_eq_getElem hi]

/-! ## §2. The disk and the loads. -/

/-- What a handle reads from: the contents of a regular file, or the bytes that
come out of a FIFO or a device from the opening on. -/
structure Inode where
  data : Bytes
  time : Int
  readable : Bool
  deriving DecidableEq

/-- What a path leads to.  A node that is no regular file may still be opened
and read, as a FIFO or a device; a directory or a socket has no inode to read. -/
inductive PathEntry where
  | regular (inode : Nat)
  | other (time : Int) (inode : Option Nat)
  deriving DecidableEq

/-- The system call that a load makes next. -/
inductive LoadPc where
  | idle
  | exists (name : Bytes)
  | isRegularFile (name : Bytes)
  | fileSize (name : Bytes)
  | lastWriteTime (name : Bytes) (size : Nat)
  | opening (name : Bytes) (size : Nat) (time : Int)
  | reading (name : Bytes) (inode : Nat) (f : CachedFile)
  | inserting (name : Bytes) (f : CachedFile)     -- the object is good

/-- The disk, the loads of the threads `T`, the main map, and the history of
the objects that were put into it. -/
structure LoadState (T : Type) where
  path : Bytes → Option PathEntry
  inode : Nat → Inode
  load : T → LoadPc := fun _ => .idle
  fileMap : MainMap := fun _ => none
  added : List (Bytes × CachedFile) := []

inductive LoadAction (T : Type) where
  | addFile (t : T) (name : Bytes)
  | next (t : T)                              -- the next system call, or the insertion
  | read (t : T) (n : Nat)                    -- a read of at most `n` bytes
  | write (inode : Nat) (content : Inode)     -- another process writes or truncates
  | link (path : Bytes) (entry : Option PathEntry)   -- and replaces, creates or removes

/-! ## §3. The steps. -/

section Steps

variable {T : Type}

/-- The calls of the `file` ctor up to `open`.  An object that is not good is
dropped, and the size or the time of a path that is gone is an exception. -/
def callStep (s : LoadState T) : LoadPc → Option LoadPc
  | .exists name => if (s.path name).isSome then some (.isRegularFile name) else some .idle
  | .isRegularFile name =>
      match s.path name with
      | some (.regular _) => some (.fileSize name)
      | _ => some .idle
  | .fileSize name =>
      match s.path name with
      | some (.regular i) => some (.lastWriteTime name (s.inode i).data.length)
      | _ => some .idle
  | .lastWriteTime name size =>
      match s.path name with
      | some (.regular i) => some (.opening name size (s.inode i).time)
      | some (.other time _) => some (.opening name size time)
      | none => some .idle
  -- `ifs.open`; the size and the time stay those taken before, and nobody tests
  -- again what the path leads to
  | .opening name size time =>
      match s.path name with
      | some (.regular i) | some (.other _ (some i)) =>
          if (s.inode i).readable then some (.reading name i ⟨size, time, []⟩) else some .idle
      | some (.other _ none) | none => some .idle
  | .idle | .reading _ _ _ | .inserting _ _ => none

/-- Read at most `n` bytes at the position reached.  The end of the file makes
the object good. -/
def readStep (inode : Nat → Inode) (n : Nat) : LoadPc → Option LoadPc
  | .reading name i f =>
      -- what is behind the position, in the file as it is now
      let rest := (inode i).data.drop f.data.length
      if n = 0 then none
      -- `eof`: nobody compares the bytes read with the size
      else if rest = [] then some (.inserting name f)
      else some (.reading name i { f with data := f.data ++ rest.take n })
  | _ => none

/-- The file ends at the position that a load has reached, before the size. -/
def LoadState.cutShort (s : LoadState T) (t : T) : Bool :=
  match s.load t with
  | .reading _ i f => f.data.length < f.size && (s.inode i).data.length ≤ f.data.length
  | _ => false

theorem callStep_inserting {s : LoadState T} {pc : LoadPc} {name : Bytes} {f : CachedFile} :
    callStep s pc ≠ some (.inserting name f) := by
  unfold callStep
  split <;> (try split) <;> (try split) <;> simp

/-- A read that is not cut short finishes only what is whole. -/
theorem readStep_inserting {s : LoadState T} {t : T} (hwhole : s.cutShort t = false) {n : Nat}
    {name : Bytes} {f : CachedFile} (h : readStep s.inode n (s.load t) = some (.inserting name f)) :
    f.Whole := by
  unfold LoadState.cutShort at hwhole
  cases hpc : s.load t with
  | reading name' i g =>
      rw [hpc] at h hwhole
      unfold readStep at h
      dsimp only at h hwhole
      split at h
      · simp at h
      · split at h
        · rename_i _ hrest
          -- the read that finds nothing is at the end of the file
          have hend : (s.inode i).data.length ≤ g.data.length := List.drop_eq_nil_iff.mp hrest
          have hg : g = f := by
            injection h with h
            injection h
          subst hg
          show g.size ≤ g.data.length
          by_contra hlt
          simp [hend, Nat.lt_of_not_le hlt] at hwhole
        · simp at h
  | _ =>
      rw [hpc] at h
      simp [readStep] at h

variable [DecidableEq T]

def LoadState.setLoad (s : LoadState T) (t : T) (pc : LoadPc) : LoadState T :=
  { s with load := Function.update s.load t pc }

/-- The end of `add_file`. -/
def LoadState.insert (s : LoadState T) (t : T) (name : Bytes) (f : CachedFile) : LoadState T :=
  { s.setLoad t .idle with
    fileMap := Function.update s.fileMap name (some f)
    added := (name, f) :: s.added }

def loadStep (s : LoadState T) : LoadAction T → Option (LoadState T)
  | .addFile t name =>
      match s.load t with
      | .idle => some (s.setLoad t (.exists name))
      | _ => none
  | .next t =>
      match s.load t with
      | .inserting name f => some (s.insert t name f)
      | pc => (callStep s pc).map (s.setLoad t)
  | .read t n => (readStep s.inode n (s.load t)).map (s.setLoad t)
  | .write i content => some { s with inode := Function.update s.inode i content }
  | .link name entry => some { s with path := Function.update s.path name entry }

/-- The loads, with nothing cached and any disk. -/
def loadMachine (path : Bytes → Option PathEntry) (inode : Nat → Inode) :
    Machine (LoadState T) (LoadAction T) where
  init := { path := path, inode := inode }
  step := loadStep

/-- The condition on a step: a read below the size still finds bytes. -/
def ReadsWhole (s : LoadState T) : LoadAction T → Prop
  | .read t _ => s.cutShort t = false
  | _ => True

/-! ## §4. Every cached object is whole. -/

/-- An object is whole when it is put into the map, and the map holds nothing
but objects that were put there. -/
structure LoadInv (s : LoadState T) : Prop where
  inserting : ∀ t name f, s.load t = .inserting name f → f.Whole
  added : ∀ p ∈ s.added, p.2.Whole
  cached : ∀ name f, s.fileMap name = some f → (name, f) ∈ s.added

theorem setLoad_load (s : LoadState T) (t u : T) (pc : LoadPc) :
    (s.setLoad t pc).load u = if u = t then pc else s.load u := by
  show Function.update s.load t pc u = _
  rw [Function.update_apply]

/-- A load that moves on keeps the invariant, unless it finishes an object
that is not whole. -/
theorem LoadInv.setLoad {s : LoadState T} (h : LoadInv s) (t : T) {pc : LoadPc}
    (hpc : ∀ name f, pc = .inserting name f → f.Whole) : LoadInv (s.setLoad t pc) := by
  refine ⟨?_, h.added, h.cached⟩
  intro u name f hu
  rw [setLoad_load] at hu
  split at hu
  · exact hpc name f hu
  · exact h.inserting u name f hu

theorem LoadInv.insert {s : LoadState T} (h : LoadInv s) (t : T) (name : Bytes) {f : CachedFile}
    (hwhole : f.Whole) : LoadInv (s.insert t name f) := by
  -- the load is idle again, and only the map and the history grow
  have hidle : LoadInv (s.setLoad t .idle) := h.setLoad t (fun _ _ hpc => (nomatch hpc))
  refine ⟨hidle.inserting, ?_, ?_⟩
  · intro p hp
    rcases List.mem_cons.mp hp with rfl | hp
    · exact hwhole
    · exact h.added p hp
  · intro n g hg
    have hmap : Function.update s.fileMap name (some f) n = some g := hg
    show (n, g) ∈ (name, f) :: s.added
    by_cases hn : n = name
    · subst hn
      rw [Function.update_self] at hmap
      rw [Option.some.inj hmap]
      exact List.mem_cons_self
    · rw [Function.update_of_ne hn] at hmap
      exact List.mem_cons_of_mem _ (h.cached n g hmap)

theorem load_inv_step (s : LoadState T) (a : LoadAction T) (s' : LoadState T) (h : LoadInv s)
    (hguard : ReadsWhole s a) (hstep : loadStep s a = some s') : LoadInv s' := by
  cases a with
  | addFile t name =>
      unfold loadStep at hstep
      dsimp only at hstep
      split at hstep
      · exact Option.some.inj hstep ▸ h.setLoad t (fun _ _ hpc => nomatch hpc)
      · exact nomatch hstep
  | next t =>
      unfold loadStep at hstep
      dsimp only at hstep
      split at hstep
      · rename_i name f hpc
        exact Option.some.inj hstep ▸ h.insert t name (h.inserting t name f hpc)
      · -- no system call but a read finishes an object
        obtain ⟨pc, hpc, rfl⟩ := Option.map_eq_some_iff.mp hstep
        refine h.setLoad t ?_
        intro name f heq
        rw [heq] at hpc
        exact absurd hpc callStep_inserting
  | read t n =>
      obtain ⟨pc, hpc, rfl⟩ := Option.map_eq_some_iff.mp hstep
      refine h.setLoad t ?_
      intro name f heq
      rw [heq] at hpc
      exact readStep_inserting hguard hpc
  | write i content => exact Option.some.inj hstep ▸ ⟨h.inserting, h.added, h.cached⟩
  | link name entry => exact Option.some.inj hstep ▸ ⟨h.inserting, h.added, h.cached⟩

theorem load_inv_reach {path : Bytes → Option PathEntry} {inode : Nat → Inode} {s : LoadState T}
    (h : (loadMachine path inode).ReachWhen ReadsWhole s) : LoadInv s := by
  refine h.invariant ?_ load_inv_step
  exact ⟨(fun _ _ _ hpc => nomatch hpc), fun _ hp => (List.not_mem_nil hp).elim,
    (fun _ _ hf => nomatch hf)⟩

/-- **A read that is cut short puts an object into the cache that promises
more than it has**: the condition is exact. -/
theorem cut_short_is_cached (s : LoadState T) (t : T) (hshort : s.cutShort t = true) :
    ∃ name f s', loadStep s (.read t 1) = some s' ∧
      (loadStep s' (.next t)).bind (fun s'' => s''.fileMap name) = some f ∧ ¬ f.Whole := by
  unfold LoadState.cutShort at hshort
  cases hpc : s.load t with
  | reading name i f =>
      rw [hpc] at hshort
      obtain ⟨hless, hend⟩ : f.data.length < f.size ∧ (s.inode i).data.length ≤ f.data.length := by
        simpa using hshort
      refine ⟨name, f, s.setLoad t (.inserting name f), ?_, ?_, Nat.not_le_of_lt hless⟩
      · unfold loadStep readStep
        simp [hpc, List.drop_eq_nil_iff.mpr hend]
      · unfold loadStep
        simp [setLoad_load, LoadState.insert]
  | _ =>
      rw [hpc] at hshort
      exact nomatch hshort

/-- **A CACHED FILE NEVER PROMISES MORE BYTES THAN IT HAS**, in every run of
loads and other processes in which no read is cut short: every object that was
put into the cache is whole, and so the body of each response made of it stays
inside the loaded buffer. -/
theorem cached_size_le_data (path : Bytes → Option PathEntry) (inode : Nat → Inode)
    (s : LoadState T) (h : (loadMachine path inode).ReachWhen ReadsWhole s) :
    (∀ p ∈ s.added, p.2.size ≤ p.2.data.length ∧
        ∀ behind, p.2.body behind = p.2.data.take p.2.size) ∧
      ∀ name f, s.fileMap name = some f → (name, f) ∈ s.added := by
  have hinv := load_inv_reach h
  refine ⟨?_, hinv.cached⟩
  intro p hp
  have hwhole := hinv.added p hp
  exact ⟨hwhole, (body_eq_take_iff p.2).mpr hwhole⟩

end Steps

instance {T : Type} (s : LoadState T) : (a : LoadAction T) → Decidable (ReadsWhole s a)
  | .read t _ => inferInstanceAs (Decidable (s.cutShort t = false))
  | .addFile _ _ | .next _ | .write _ _ | .link _ _ => inferInstanceAs (Decidable True)

/-! ## §5. A truncation between the size and the read. -/

/-- A disk with one file of three bytes. -/
def oneFile : Machine (LoadState Unit) (LoadAction Unit) :=
  loadMachine (fun p => if p = bytes "f" then some (.regular 0) else none)
    (fun _ => ⟨bytes "abc", 0, true⟩)

/-- A load of the file, with what other processes do after the size was taken. -/
def loadRun (others : List (LoadAction Unit)) (reads : Nat) : List (LoadAction Unit) :=
  [.addFile () (bytes "f"), .next (), .next (), .next ()] ++ others ++ [.next (), .next ()] ++
    List.replicate reads (.read () 2) ++ [.next ()]

/-- A file that is left alone is read to its end. -/
theorem cached_size_le_data_alone :
    ∃ s, oneFile.ReachWhen ReadsWhole s ∧ s.added = [(bytes "f", ⟨3, 0, bytes "abc"⟩)] ∧
      ∀ p ∈ s.added, p.2.size ≤ p.2.data.length := by
  obtain ⟨s, hs, hadded⟩ := oneFile.exists_reachWhen_of_run ReadsWhole (loadRun [] 3)
    (fun s => s.added = [(bytes "f", ⟨3, 0, bytes "abc"⟩)]) (by decide +kernel)
  exact ⟨s, hs, hadded, fun p hp => ((cached_size_le_data _ _ s hs).1 p hp).1⟩

/-- **A truncation between `file_size` and the read leaves an object of three
bytes with one byte of data in the cache.** -/
theorem truncated_while_loading :
    ¬ ∀ s, oneFile.Reach s → ∀ p ∈ s.added, p.2.size ≤ p.2.data.length := by
  intro h
  obtain ⟨s, hs, hadded⟩ := oneFile.exists_reach_of_run
    (loadRun [.write 0 ⟨bytes "a", 1, true⟩] 2)
    (fun s => s.added = [(bytes "f", ⟨3, 1, bytes "a"⟩)]) (by decide +kernel)
  have hle := h s hs _ (by rw [hadded]; exact List.mem_singleton_self _)
  exact absurd hle (by decide)

end Petrel
