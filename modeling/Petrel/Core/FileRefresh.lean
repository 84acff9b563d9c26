/-
  Petrel.Core.FileRefresh — one pass of the refresh loop of the file cache.

  A pass scans every registered directory, compares every name of the main
  map with the disk, loads the changed ones again and removes the vanished
  ones.  The file system does not change meanwhile: it is a finite tree with
  a working directory, and a path is resolved in it segment by segment.

  Main results:
    * `lookup_entryPath`     — the path that a directory gives to an entry
      leads to this entry.
    * `scan_scanned`         — what a scan adds, and that it misses nothing.
    * `updateExisting_apply` — what a pass makes of each name.
    * `refresh_matches_disk` — when the map matches the disk after a pass.
-/

import Petrel.Core.FileCache

namespace Petrel

/-! ## §1. A file system snapshot. -/

/-- The entries of each directory of a tree have different names. -/
inductive FsNode.Distinct : FsNode → Prop where
  | file (f : DiskFile) : Distinct (.file f)
  | other : Distinct .other
  | directory (entries : List (EntryName × FsNode)) :
      (entries.map Prod.fst).Nodup → (∀ p ∈ entries, p.2.Distinct) → Distinct (.directory entries)

/-- A finite tree and the working directory. -/
structure Snapshot where
  root : FsNode
  cwd : List Bytes
  distinct : root.Distinct

/-- The entry of a directory under a name. -/
def child (entries : List (EntryName × FsNode)) (seg : Bytes) : Option FsNode :=
  (entries.find? (fun p => p.1.1 = seg)).map Prod.snd

/-- Resolve one segment from a node, given with the directories above it. -/
def walkStep : List FsNode → Bytes → Option (List FsNode)
  | .directory entries :: up, seg =>
      if seg = [] ∨ seg = bytes "." then some (.directory entries :: up)
      else if seg = bytes ".." then
        -- the root is above itself
        match up with
        | [] => some [.directory entries]
        | _ :: _ => some up
      else (child entries seg).map (fun node => node :: .directory entries :: up)
  | _, _ => none

def walk (segs : List Bytes) (st : List FsNode) : Option (List FsNode) := segs.foldlM walkStep st

/-- Where the resolution of a path begins. -/
def Snapshot.start (fs : Snapshot) (name : Bytes) : Option (List FsNode) :=
  match name with
  | [] => none
  -- a relative path begins at the working directory
  | c :: _ => if c = byte '/' then some [fs.root] else walk fs.cwd [fs.root]

/-- What a path leads to; none where `exists` is false. -/
def Snapshot.lookup (fs : Snapshot) (name : Bytes) : Option FsNode :=
  ((fs.start name).bind (walk (name.splitOn (byte '/')))).bind List.head?

theorem child_mem {entries : List (EntryName × FsNode)} (hnodup : (entries.map Prod.fst).Nodup)
    {e : EntryName} {node : FsNode} (h : (e, node) ∈ entries) : child entries e.1 = some node := by
  unfold child
  induction entries with
  | nil => exact (List.not_mem_nil h).elim
  | cons p entries ih =>
      rw [List.map_cons, List.nodup_cons] at hnodup
      rcases List.mem_cons.mp h with rfl | h
      · simp
      · -- an entry before `e` has another name
        have hne : ¬ p.1.1 = e.1 := by
          intro heq
          exact hnodup.1 (Subtype.ext heq ▸ List.mem_map_of_mem h)
        rw [List.find?_cons_of_neg (by simpa using hne)]
        exact ih hnodup.2 h

/-- The names of entries are resolved as such. -/
theorem walkStep_entry {entries : List (EntryName × FsNode)} {up : List FsNode} {e : EntryName}
    {node : FsNode} (h : child entries e.1 = some node) :
    walkStep (.directory entries :: up) e.1 = some (node :: .directory entries :: up) := by
  have hgood := e.2
  show (if _ then _ else _) = _
  rw [if_neg (fun hor => hor.elim hgood.nonempty hgood.notDot), if_neg hgood.notDotDot, h]
  rfl

theorem walkStep_distinct {st st' : List FsNode} {seg : Bytes} (h : ∀ n ∈ st, n.Distinct)
    (hstep : walkStep st seg = some st') : ∀ n ∈ st', n.Distinct := by
  unfold walkStep at hstep
  split at hstep
  · rename_i entries up
    have hdir := h _ List.mem_cons_self
    split at hstep
    · exact Option.some.inj hstep ▸ h
    · split at hstep
      · split at hstep
        · exact Option.some.inj hstep ▸ h
        · obtain rfl := Option.some.inj hstep
          exact fun n hn => h n (List.mem_cons_of_mem _ hn)
      · obtain ⟨node, hchild, rfl⟩ := Option.map_eq_some_iff.mp hstep
        obtain ⟨p, hp, rfl⟩ := Option.map_eq_some_iff.mp hchild
        intro n hn
        rcases List.mem_cons.mp hn with rfl | hn
        · cases hdir with
          | directory _ _ hsub => exact hsub p (List.mem_of_find?_eq_some hp)
        · exact h n hn
  · exact nomatch hstep

theorem walk_distinct {segs : List Bytes} {st st' : List FsNode} (h : ∀ n ∈ st, n.Distinct)
    (hwalk : walk segs st = some st') : ∀ n ∈ st', n.Distinct := by
  induction segs generalizing st with
  | nil => exact Option.some.inj hwalk ▸ h
  | cons seg segs ih =>
      obtain ⟨mid, hmid, hrest⟩ := Option.bind_eq_some_iff.mp hwalk
      exact ih (walkStep_distinct h hmid) hrest

theorem start_distinct {fs : Snapshot} {name : Bytes} {st : List FsNode}
    (h : fs.start name = some st) : ∀ n ∈ st, n.Distinct := by
  have hroot : ∀ n ∈ [fs.root], n.Distinct := by
    intro n hn
    rw [List.mem_singleton.mp hn]
    exact fs.distinct
  unfold Snapshot.start at h
  split at h
  · exact nomatch h
  · split at h
    · exact Option.some.inj h ▸ hroot
    · exact walk_distinct hroot h

theorem walk_append (a b : List Bytes) (st : List FsNode) :
    walk (a ++ b) st = (walk a st).bind (walk b) := List.foldlM_append

/-- An empty segment is resolved to the same directory. -/
theorem walkStep_empty {st st' : List FsNode} (h : walkStep st [] = some st') : st = st' := by
  unfold walkStep at h
  split at h
  · rw [if_pos (Or.inl rfl)] at h
    exact Option.some.inj h
  · exact nomatch h

/-- A slash at the end of a name changes nothing. -/
theorem walk_dirSegments {name : Bytes} {st st' : List FsNode}
    (h : walk (name.splitOn (byte '/')) st = some st') : walk (dirSegments name) st = some st' := by
  unfold dirSegments
  split
  · rename_i hlast
    obtain ⟨init, rfl⟩ := List.getLast?_eq_some_iff.mp hlast
    rw [List.splitOn_append_cons_self, List.splitOn_nil, walk_append] at h
    rw [List.dropLast_concat]
    obtain ⟨mid, hmid, hlast⟩ := Option.bind_eq_some_iff.mp h
    obtain ⟨mid', hstep, hend⟩ := Option.bind_eq_some_iff.mp hlast
    rw [hmid, walkStep_empty hstep]
    exact hend
  · exact h

/-- The path of an entry begins as the path of its directory. -/
theorem start_entryPath (fs : Snapshot) {name : Bytes} (hname : name ≠ []) (e : Bytes) :
    fs.start (entryPath name e) = fs.start name := by
  obtain ⟨c, rest, rfl⟩ := List.exists_cons_of_ne_nil hname
  unfold entryPath
  split <;> rfl

/-- **The path that `directory_iterator` gives to an entry leads to it**,
whether the directory is named with a slash at its end or not, absolutely or
from the working directory. -/
theorem lookup_entryPath {fs : Snapshot} {name : Bytes} {entries : List (EntryName × FsNode)}
    (h : fs.lookup name = some (.directory entries)) {e : EntryName} {node : FsNode}
    (he : (e, node) ∈ entries) : fs.lookup (entryPath name e.1) = some node := by
  obtain ⟨st', hst', hhead⟩ := Option.bind_eq_some_iff.mp h
  obtain ⟨st, hstart, hwalk⟩ := Option.bind_eq_some_iff.mp hst'
  obtain ⟨up, rfl⟩ : ∃ up, st' = .directory entries :: up := List.head?_eq_some_iff.mp hhead
  have hname : name ≠ [] := by
    rintro rfl
    exact nomatch hstart
  -- the resolution ends at a node of the tree
  have hnodup : (entries.map Prod.fst).Nodup := by
    have hdir := walk_distinct (start_distinct hstart) hwalk _ List.mem_cons_self
    cases hdir with
    | directory _ hnodup _ => exact hnodup
  -- one more step from there, by the name of the entry
  unfold Snapshot.lookup
  rw [start_entryPath fs hname, hstart, Option.bind_some, splitOn_entryPath, walk_append,
    walk_dirSegments hwalk, Option.bind_some]
  show ((walkStep (.directory entries :: up) e.1).bind some).bind List.head? = some node
  rw [walkStep_entry (child_mem hnodup he)]
  rfl

/-! ## §2. What a scan adds. -/

/-- `key` is the path that a scan of the directory `name` gives to a file. -/
inductive FileBelow : Bytes → FsNode → Bytes → DiskFile → Prop where
  | here {name : Bytes} {entries : List (EntryName × FsNode)} {e : EntryName} {d : DiskFile} :
      (e, .file d) ∈ entries → FileBelow name (.directory entries) (entryPath name e.1) d
  | sub {name : Bytes} {entries : List (EntryName × FsNode)} {e : EntryName} {node : FsNode}
      {key : Bytes} {d : DiskFile} : (e, node) ∈ entries → FileBelow (entryPath name e.1) node key d →
      FileBelow name (.directory entries) key d

theorem FileBelow.lookup {fs : Snapshot} {name key : Bytes} {node : FsNode} {d : DiskFile}
    (h : FileBelow name node key d) (hname : fs.lookup name = some node) :
    fs.lookup key = some (.file d) := by
  induction h with
  | here he => exact lookup_entryPath hname he
  | sub he _ ih => exact ih (lookup_entryPath hname he)

/-- The object that is loaded from a regular file. -/
def DiskFile.cached (d : DiskFile) : CachedFile := ⟨d.size, d.time, d.data⟩

/-- From `m` to `m'` readable files of `P` were added, and all that were
missing. -/
structure Scanned (P : Bytes → DiskFile → Prop) (m m' : MainMap) : Prop where
  kept : ∀ k f, m k = some f → m' k = some f
  added : ∀ k f, m' k = some f → m k = some f ∨ ∃ d, P k d ∧ d.readable = true ∧ f = d.cached
  complete : ∀ k d, P k d → d.readable = true → (m' k).isSome

theorem Scanned.nothing (m : MainMap) : Scanned (fun _ _ => False) m m :=
  ⟨fun _ _ h => h, fun _ _ h => .inl h, fun _ _ h => h.elim⟩

theorem Scanned.trans {P Q R : Bytes → DiskFile → Prop} {m m1 m2 : MainMap}
    (h1 : Scanned P m m1) (h2 : Scanned Q m1 m2) (hR : ∀ k d, R k d ↔ P k d ∨ Q k d) :
    Scanned R m m2 := by
  refine ⟨fun k f h => h2.kept k f (h1.kept k f h), ?_, ?_⟩
  · intro k f h
    rcases h2.added k f h with h | ⟨d, hd, hread, hf⟩
    · rcases h1.added k f h with h | ⟨d, hd, hread, hf⟩
      · exact .inl h
      · exact .inr ⟨d, (hR k d).mpr (.inl hd), hread, hf⟩
    · exact .inr ⟨d, (hR k d).mpr (.inr hd), hread, hf⟩
  · intro k d hd hread
    rcases (hR k d).mp hd with hd | hd
    · obtain ⟨f, hf⟩ := Option.isSome_iff_exists.mp (h1.complete k d hd hread)
      exact Option.isSome_iff_exists.mpr ⟨f, h2.kept k f hf⟩
    · exact h2.complete k d hd hread

theorem load_eq_some_iff (node : FsNode) (f : CachedFile) :
    node.load = some f ↔ ∃ d, node = .file d ∧ d.readable = true ∧ f = d.cached := by
  unfold FsNode.load
  constructor
  · intro h
    split at h
    · rename_i d
      split at h
      · rename_i hread
        exact ⟨d, rfl, hread, (Option.some.inj h).symm⟩
      · exact nomatch h
    · exact nomatch h
    · exact nomatch h
  · rintro ⟨d, rfl, hread, rfl⟩
    exact if_pos hread

/-- An entry that is no directory is added if its path is new. -/
theorem scanned_file (m : MainMap) (path : Bytes) (node : FsNode) :
    Scanned (fun k d => k = path ∧ node = .file d) m
      (if (m path).isNone then addFile m path node else m) := by
  by_cases hnew : (m path).isNone
  · rw [if_pos hnew]
    unfold addFile
    cases hload : node.load with
    | none =>
        -- a file that does not load is not readable
        refine ⟨fun _ _ h => h, fun _ _ h => .inl h, ?_⟩
        rintro k d ⟨-, hnode⟩ hread
        have hsome := (load_eq_some_iff node d.cached).mpr ⟨d, hnode, hread, rfl⟩
        rw [hload] at hsome
        exact nomatch hsome
    | some f =>
        obtain ⟨d, hnode, hread, hf⟩ := (load_eq_some_iff node f).mp hload
        refine ⟨?_, ?_, ?_⟩
        · -- nothing is overwritten, as the path is new
          intro k g hg
          have hk : k ≠ path := by
            rintro rfl
            rw [hg] at hnew
            exact nomatch hnew
          show Function.update m path (some f) k = some g
          rw [Function.update_of_ne hk]
          exact hg
        · intro k g hg
          have hg' : Function.update m path (some f) k = some g := hg
          by_cases hk : k = path
          · rw [hk, Function.update_self] at hg'
            exact .inr ⟨d, ⟨hk, hnode⟩, hread, (Option.some.inj hg').symm.trans hf⟩
          · rw [Function.update_of_ne hk] at hg'
            exact .inl hg'
        · rintro k d' ⟨rfl, -⟩ -
          show (Function.update m k (some f) k).isSome
          rw [Function.update_self]
          rfl
  · rw [if_neg hnew]
    refine ⟨fun _ _ h => h, fun _ _ h => .inl h, ?_⟩
    rintro k d ⟨rfl, -⟩ -
    exact Option.isSome_iff_ne_none.mpr (by simpa using hnew)

/-- The files of a directory are those of its first entry and of the others. -/
theorem fileBelow_cons {name : Bytes} {e : EntryName} {node : FsNode}
    {rest : List (EntryName × FsNode)} (k : Bytes) (d : DiskFile) :
    FileBelow name (.directory ((e, node) :: rest)) k d ↔
      (k = entryPath name e.1 ∧ node = .file d ∨ FileBelow (entryPath name e.1) node k d) ∨
        FileBelow name (.directory rest) k d := by
  constructor
  · intro h
    cases h with
    | here he =>
        rcases List.mem_cons.mp he with heq | he
        · obtain ⟨rfl, rfl⟩ := Prod.mk.inj heq
          exact .inl (.inl ⟨rfl, rfl⟩)
        · exact .inr (.here he)
    | sub he hsub =>
        rcases List.mem_cons.mp he with heq | he
        · obtain ⟨rfl, rfl⟩ := Prod.mk.inj heq
          exact .inl (.inr hsub)
        · exact .inr (.sub he hsub)
  · rintro ((⟨rfl, rfl⟩ | h) | h)
    · exact .here List.mem_cons_self
    · exact .sub List.mem_cons_self h
    · cases h with
      | here he => exact .here (List.mem_cons_of_mem _ he)
      | sub he hsub => exact .sub (List.mem_cons_of_mem _ he) hsub

/-- Only a directory has files below it. -/
theorem not_fileBelow {name : Bytes} {node : FsNode} (hnode : ∀ entries, node ≠ .directory entries)
    (k : Bytes) (d : DiskFile) : ¬ FileBelow name node k d := by
  intro h
  cases h with
  | here _ => exact hnode _ rfl
  | sub _ _ => exact hnode _ rfl

mutual

/-- **A scan adds every readable file below the directory that is missing, and
nothing else.** -/
theorem scan_scanned (node : FsNode) (name : Bytes) (m : MainMap) :
    Scanned (FileBelow name node) m (node.scan name m).2 := by
  match node with
  | .directory entries =>
      unfold FsNode.scan
      exact scanEntries_scanned entries name m
  | .file f =>
      unfold FsNode.scan
      refine ⟨fun _ _ h => h, fun _ _ h => .inl h, ?_⟩
      exact fun k d hd => (not_fileBelow (by simp) k d hd).elim
  | .other =>
      unfold FsNode.scan
      refine ⟨fun _ _ h => h, fun _ _ h => .inl h, ?_⟩
      exact fun k d hd => (not_fileBelow (by simp) k d hd).elim

theorem scanEntries_scanned (entries : List (EntryName × FsNode)) (name : Bytes) (m : MainMap) :
    Scanned (FileBelow name (.directory entries)) m (scanEntries name entries m) := by
  match entries with
  | [] =>
      unfold scanEntries
      refine ⟨fun _ _ h => h, fun _ _ h => .inl h, ?_⟩
      intro k d hd
      cases hd with
      | here he => exact (List.not_mem_nil he).elim
      | sub he _ => exact (List.not_mem_nil he).elim
  | (e, .directory sub) :: rest =>
      unfold scanEntries
      refine (scan_scanned (.directory sub) (entryPath name e.1) m).trans
        (scanEntries_scanned rest name _) ?_
      intro k d
      rw [fileBelow_cons]
      simp
  | (e, .file f) :: rest =>
      unfold scanEntries
      refine (scanned_file m (entryPath name e.1) (.file f)).trans
        (scanEntries_scanned rest name _) ?_
      intro k d
      rw [fileBelow_cons]
      simp [not_fileBelow]
  | (e, .other) :: rest =>
      unfold scanEntries
      refine (scanned_file m (entryPath name e.1) .other).trans
        (scanEntries_scanned rest name _) ?_
      intro k d
      rw [fileBelow_cons]
      simp [not_fileBelow]

end

/-! ## §3. The pass. -/

/-- `file_cache::scan_directory`. -/
def Snapshot.scanDirectory (fs : Snapshot) (m : MainMap) (name : Bytes) : MainMap :=
  match fs.lookup name with
  | some node => (node.scan name m).2
  | none => m

/-- `file_cache::add_file` of a path. -/
def Snapshot.addFile (fs : Snapshot) (m : MainMap) (name : Bytes) : MainMap :=
  match fs.lookup name with
  | some node => Petrel.addFile m name node
  | none => m

/-- `file_cache::remove_file`. -/
def removeFile (m : MainMap) (name : Bytes) : MainMap := Function.update m name none

/-- The size and the time of `file(name)`, not read from the disk. -/
def FsNode.stat : FsNode → Nat × Int
  | .file d => (d.size, d.time)
  | .directory _ | .other => (0, 0)

/-- The main map's order of iteration. -/
structure Iteration (m : MainMap) where
  names : List Bytes
  complete : ∀ k, k ∈ names ↔ (m k).isSome

/-- A cached name that exists and is not what was cached. -/
def Snapshot.changed (fs : Snapshot) (m : MainMap) (name : Bytes) : Bool :=
  match fs.lookup name, m name with
  | some node, some f => (f.size, f.time) ≠ node.stat
  | _, _ => false

/-- The second half of the loop: update or remove the existing objects. -/
def Snapshot.updateExisting (fs : Snapshot) (m : MainMap) (it : Iteration m) : MainMap :=
  -- both lists are made under the lock, before either loop
  let toAdd := it.names.filter (fs.changed m)
  let toRemove := it.names.filter (fun name => (fs.lookup name).isNone)
  toRemove.foldl removeFile (toAdd.foldl fs.addFile m)

/-- The body of the loop of the refresh thread. -/
def refreshPass (fs : Snapshot) (dirs : List Bytes) (m : MainMap)
    (it : Iteration (dirs.foldl fs.scanDirectory m)) : MainMap :=
  fs.updateExisting (dirs.foldl fs.scanDirectory m) it

/-- What a pass makes of a cached object. -/
def Snapshot.refreshed (fs : Snapshot) (name : Bytes) (f : CachedFile) : Option CachedFile :=
  match fs.lookup name with
  | none => none
  | some node => if (f.size, f.time) ≠ node.stat then some (node.load.getD f) else some f

theorem removeFile_foldl (names : List Bytes) (m : MainMap) (k : Bytes) :
    names.foldl removeFile m k = if k ∈ names then none else m k := by
  induction names generalizing m with
  | nil => rfl
  | cons name names ih =>
      rw [List.foldl_cons, ih]
      by_cases hk : k = name
      · subst hk
        simp [removeFile]
      · simp [removeFile, hk]

theorem addFile_apply (fs : Snapshot) (m : MainMap) (name k : Bytes) :
    fs.addFile m name k =
      if k = name then ((fs.lookup name).bind FsNode.load).or (m name) else m k := by
  unfold Snapshot.addFile
  cases fs.lookup name with
  | none => by_cases hk : k = name <;> simp [hk]
  | some node =>
      show Petrel.addFile m name node k = if k = name then node.load.or (m name) else m k
      unfold Petrel.addFile
      cases node.load with
      | none => by_cases hk : k = name <;> simp [hk]
      | some f =>
          show Function.update m name (some f) k = _
          rw [Function.update_apply, Option.some_or]

theorem addFile_foldl (fs : Snapshot) (names : List Bytes) (m : MainMap) (k : Bytes) :
    names.foldl fs.addFile m k =
      if k ∈ names then ((fs.lookup k).bind FsNode.load).or (m k) else m k := by
  induction names generalizing m with
  | nil => rfl
  | cons name names ih =>
      rw [List.foldl_cons, ih, addFile_apply]
      by_cases hk : k = name
      · subst hk
        -- a second load of the same file changes nothing
        cases (fs.lookup k).bind FsNode.load <;> simp
      · simp [hk]

/-- **What a pass makes of each name**: of the objects after the scans it keeps
what is unchanged, loads again what is changed, and removes what is gone. -/
theorem updateExisting_apply (fs : Snapshot) (m : MainMap) (it : Iteration m) (k : Bytes) :
    fs.updateExisting m it k = (m k).bind (fs.refreshed k) := by
  unfold Snapshot.updateExisting
  rw [removeFile_foldl, addFile_foldl]
  simp only [List.mem_filter, it.complete]
  unfold Snapshot.refreshed Snapshot.changed
  cases m k with
  | none => simp
  | some f =>
      cases hnode : fs.lookup k with
      | none => simp
      | some node =>
          by_cases hsame : (f.size, f.time) = node.stat
          · simp [hsame]
          · cases node.load <;> simp [hsame]

/-! ## §4. When the map matches the disk. -/

/-- The files that are below one of the directories. -/
def Snapshot.Registered (fs : Snapshot) (dirs : List Bytes) (key : Bytes) (d : DiskFile) : Prop :=
  ∃ dir ∈ dirs, ∃ node, fs.lookup dir = some node ∧ FileBelow dir node key d

theorem scanDirectory_scanned (fs : Snapshot) (m : MainMap) (dir : Bytes) :
    Scanned (fs.Registered [dir]) m (fs.scanDirectory m dir) := by
  unfold Snapshot.scanDirectory
  cases hnode : fs.lookup dir with
  | none =>
      refine (Scanned.nothing m).trans (Scanned.nothing m) ?_
      intro k d
      simp [Snapshot.Registered, hnode]
  | some node =>
      refine (Scanned.nothing m).trans (scan_scanned node dir m) ?_
      intro k d
      simp [Snapshot.Registered, hnode]

theorem scanAll_scanned (fs : Snapshot) (dirs : List Bytes) (m : MainMap) :
    Scanned (fs.Registered dirs) m (dirs.foldl fs.scanDirectory m) := by
  induction dirs generalizing m with
  | nil =>
      refine (Scanned.nothing m).trans (Scanned.nothing m) ?_
      intro k d
      simp [Snapshot.Registered]
  | cons dir dirs ih =>
      refine (scanDirectory_scanned fs m dir).trans (ih _) ?_
      intro k d
      simp [Snapshot.Registered]

/-- The keys are existing regular files with the size and the time of their
objects, and every readable file below a registered directory is a key. -/
structure MatchesDisk (fs : Snapshot) (dirs : List Bytes) (m : MainMap) : Prop where
  keys : ∀ k f, m k = some f →
    ∃ d, fs.lookup k = some (.file d) ∧ f.size = d.size ∧ f.time = d.time
  files : ∀ k d, fs.Registered dirs k d → d.readable = true → (m k).isSome

/-- A cached name is gone, or a regular file that is readable or unchanged. -/
def Snapshot.Refreshable (fs : Snapshot) (m : MainMap) : Prop :=
  ∀ k f, m k = some f → fs.lookup k = none ∨
    ∃ d, fs.lookup k = some (.file d) ∧ (d.readable = true ∨ f.size = d.size ∧ f.time = d.time)

theorem Snapshot.Registered.lookup {fs : Snapshot} {dirs : List Bytes} {key : Bytes} {d : DiskFile}
    (h : fs.Registered dirs key d) : fs.lookup key = some (.file d) := by
  obtain ⟨dir, -, node, hnode, hbelow⟩ := h
  exact hbelow.lookup hnode

/-- When one object matches the disk after the pass, or is gone from the map. -/
theorem refreshed_matches_iff (fs : Snapshot) (k : Bytes) (f : CachedFile) :
    (∀ g, fs.refreshed k f = some g →
        ∃ d, fs.lookup k = some (.file d) ∧ g.size = d.size ∧ g.time = d.time) ↔
      (fs.lookup k = none ∨
        ∃ d, fs.lookup k = some (.file d) ∧
          (d.readable = true ∨ f.size = d.size ∧ f.time = d.time)) := by
  unfold Snapshot.refreshed
  cases fs.lookup k with
  | none => simp
  | some node =>
      cases node with
      | file d =>
          by_cases hsame : f.size = d.size ∧ f.time = d.time
          · simp [FsNode.stat, hsame]
          · by_cases hread : d.readable = true
            · simp [FsNode.stat, FsNode.load, hsame, hread]
            · simp [FsNode.stat, FsNode.load, hsame, hread]
      | directory entries =>
          by_cases hsame : (f.size, f.time) = FsNode.stat (.directory entries) <;>
            simp [hsame, FsNode.load]
      | other =>
          by_cases hsame : (f.size, f.time) = FsNode.stat .other <;> simp [hsame, FsNode.load]

/-- **A REFRESH PASS MAKES THE CACHE MATCH THE DISK IF AND ONLY IF** each name
of the map is gone, or leads to a regular file that can be read or is the one
cached.  A name that leads to anything else is neither loaded again nor
removed. -/
theorem refresh_matches_disk (fs : Snapshot) (dirs : List Bytes) (m : MainMap)
    (it : Iteration (dirs.foldl fs.scanDirectory m)) :
    MatchesDisk fs dirs (refreshPass fs dirs m it) ↔ fs.Refreshable m := by
  have hscan := scanAll_scanned fs dirs m
  have hpass : ∀ k, refreshPass fs dirs m it k = _ := updateExisting_apply fs _ it
  constructor
  · intro hmatch k f hf
    refine (refreshed_matches_iff fs k f).mp ?_
    intro g hg
    -- what the pass makes of an old object is in the map after it
    refine hmatch.keys k g ?_
    rw [hpass, hscan.kept k f hf]
    exact hg
  · intro hrefresh
    refine ⟨?_, ?_⟩
    · intro k g hg
      rw [hpass] at hg
      obtain ⟨f, hf, hg⟩ := Option.bind_eq_some_iff.mp hg
      refine (refreshed_matches_iff fs k f).mpr ?_ g hg
      -- an object of the pass is an old one or was found by the scan
      rcases hscan.added k f hf with hold | ⟨d, hd, hread, -⟩
      · exact hrefresh k f hold
      · exact .inr ⟨d, hd.lookup, .inl hread⟩
    · intro k d hd hread
      -- a file found by the scan is not removed again, as its path exists
      obtain ⟨f, hf⟩ := Option.isSome_iff_exists.mp (hscan.complete k d hd hread)
      rw [hpass, hf, Option.bind_some]
      unfold Snapshot.refreshed
      rw [hd.lookup]
      dsimp only
      split <;> rfl

/-! ## §5. A file that is replaced by a directory. -/

/-- A tree with one node below `/d`. -/
def withNode (node : FsNode) (h : node.Distinct) : Snapshot where
  root := .directory [(⟨bytes "d", ⟨by decide, by decide, by decide, by decide⟩⟩,
    .directory [(⟨bytes "f", ⟨by decide, by decide, by decide, by decide⟩⟩, node)])]
  cwd := []
  distinct := by
    refine .directory _ (List.nodup_singleton _) ?_
    intro p hp
    rw [List.mem_singleton.mp hp]
    refine .directory _ (List.nodup_singleton _) ?_
    intro q hq
    rw [List.mem_singleton.mp hq]
    exact h

/-- The map after the directory was added, with a file in it. -/
def oneCached : MainMap :=
  let fs := withNode (.file ⟨2, 1, bytes "hi", true⟩) (.file _)
  ((({} : FileCache).addDirectory (bytes "/d") (fs.lookup (bytes "/d"))).2).fileMap

/-- The same tree with a directory in the place of the file. -/
def replacedFile : Snapshot := withNode (.directory []) (.directory _ List.nodup_nil (by simp))

/-- What is cached of the file. -/
def cachedPage : CachedFile := ⟨2, 1, bytes "hi"⟩

theorem oneCached_apply (k : Bytes) :
    oneCached k = if k = bytes "/d/f" then some cachedPage else none := by
  have hcached : oneCached = Function.update (fun _ => none) (bytes "/d/f") (some cachedPage) := rfl
  rw [hcached, Function.update_apply]

/-- The iteration over a map with one object. -/
def oneName : Iteration ([bytes "/d"].foldl replacedFile.scanDirectory oneCached) where
  names := [bytes "/d/f"]
  complete k := by
    have hscan : [bytes "/d"].foldl replacedFile.scanDirectory oneCached = oneCached := rfl
    rw [hscan, oneCached_apply, List.mem_singleton]
    by_cases hk : k = bytes "/d/f" <;> simp [hk]

/-- **A file that is replaced by a directory stays in the map**: the pass finds
the path existing and changed, and the load refuses it. -/
theorem replaced_file_stays :
    refreshPass replacedFile [bytes "/d"] oneCached oneName (bytes "/d/f") = some cachedPage ∧
      ¬ MatchesDisk replacedFile [bytes "/d"]
        (refreshPass replacedFile [bytes "/d"] oneCached oneName) := by
  have hstays : refreshPass replacedFile [bytes "/d"] oneCached oneName (bytes "/d/f") =
      some cachedPage := rfl
  refine ⟨hstays, ?_⟩
  intro hmatch
  obtain ⟨d, hd, -⟩ := hmatch.keys _ _ hstays
  have hdirectory : replacedFile.lookup (bytes "/d/f") = some (.directory []) := rfl
  rw [hdirectory] at hd
  exact nomatch Option.some.inj hd

end Petrel
