/-
  Petrel.Core.FileCache — loading directories into the file cache.

  `scan_directory` walks a directory and adds each file it does not know yet
  under the path that `directory_iterator` gives it.  A file system snapshot
  is a finite tree; the names of its entries carry what the iterator promises
  of them: they are not empty, contain no slash, and are neither "." nor "..".

  Main results:
    * `splitOn_entryPath` — the segments of an entry's path are those of its
      directory and its name.
    * `scan_names`        — every file a scan adds is below the directory.
    * `segments_below`    — what is left of such a name behind a registered
      directory is made of entry names alone.
-/

import Petrel.Core.Bytes
import Petrel.Core.FileCacheCoherence

namespace Petrel

/-! ## §1. Files and directories. -/

/-- A name that `directory_iterator` yields. -/
structure GoodSegment (s : Bytes) : Prop where
  nonempty : s ≠ []
  noSlash : byte '/' ∉ s
  notDot : s ≠ bytes "."
  notDotDot : s ≠ bytes ".."

abbrev EntryName := { s : Bytes // GoodSegment s }

/-- A regular file as the file system has it. -/
structure DiskFile where
  size : Nat
  time : Int
  data : Bytes
  readable : Bool

/-- A file system snapshot. -/
inductive FsNode where
  | file (f : DiskFile)
  | directory (entries : List (EntryName × FsNode))
  | other

/-- `file_cache::file`, loaded successfully. -/
structure CachedFile where
  size : Nat
  time : Int
  data : Bytes
  deriving DecidableEq

/-- The bytes from `file->data().data()` on of the length `file->size()`.  What
lies behind the data is the memory behind the buffer. -/
def CachedFile.body (f : CachedFile) (behind : Nat → UInt8) : Bytes :=
  (List.range f.size).map (fun i => (f.data[i]?).getD (behind i))

/-- The `file` ctor with `read_from_disk`; none where the file is not good. -/
def FsNode.load : FsNode → Option CachedFile
  | .file f => if f.readable then some ⟨f.size, f.time, f.data⟩ else none
  | .directory _ | .other => none

/-- `directory_entry::path` for an entry of the directory `name`: joined by
one slash. -/
def entryPath (name e : Bytes) : Bytes :=
  if name.getLast? = some (byte '/') then name ++ e else name ++ byte '/' :: e

/-! ## §2. The cache as the bootstrap fills it. -/

/-- The main map. -/
abbrev MainMap := FileMap Bytes CachedFile

/-- `file_cache::add_file` before any io service is registered. -/
def addFile (m : MainMap) (name : Bytes) (node : FsNode) : MainMap :=
  match node.load with
  | some f => Function.update m name (some f)
  | none => m

mutual

/-- `file_cache::scan_directory` of the path `name` that leads to a node. -/
def FsNode.scan (name : Bytes) : FsNode → MainMap → Bool × MainMap
  | .directory entries, m => (true, scanEntries name entries m)
  | .file _, m => (false, m)
  | .other, m => (false, m)

/-- The loop over the entries of a directory. -/
def scanEntries (name : Bytes) : List (EntryName × FsNode) → MainMap → MainMap
  | [], m => m
  -- a subdirectory is scanned in its turn
  | (e, .directory entries) :: rest, m =>
      scanEntries name rest (FsNode.scan (entryPath name e.1) (.directory entries) m).2
  -- any other entry is added if its path is not yet known
  | (e, .file f) :: rest, m =>
      let path := entryPath name e.1
      scanEntries name rest (if (m path).isNone then addFile m path (.file f) else m)
  | (e, .other) :: rest, m =>
      let path := entryPath name e.1
      scanEntries name rest (if (m path).isNone then addFile m path .other else m)

end

/-- The main map and the registered directories. -/
structure FileCache where
  fileMap : MainMap := fun _ => none
  directories : List Bytes := []

/-- `file_cache::add_directory`; `node` is what the path leads to, if anything. -/
def FileCache.addDirectory (c : FileCache) (name : Bytes) (node : Option FsNode) : Bool × FileCache :=
  match node with
  | none => (false, c)
  | some node =>
      match node.scan name c.fileMap with
      | (true, m) =>
          -- the list keeps one entry for each directory
          (true, { c with fileMap := m, directories := name :: c.directories.erase name })
      | (false, m) => (false, { c with fileMap := m })

/-! ## §3. The names of the files below a directory. -/

/-- The segments of a directory name, with or without a slash at its end. -/
def dirSegments (name : Bytes) : List Bytes :=
  if name.getLast? = some (byte '/') then name.dropLast.splitOn (byte '/') else name.splitOn (byte '/')

/-- `key` is the path of a file some levels below the directory `name`. -/
def Below (name key : Bytes) : Prop :=
  ∃ names, names ≠ [] ∧ (∀ s ∈ names, GoodSegment s) ∧
    key.splitOn (byte '/') = dirSegments name ++ names

/-- **The segments of an entry's path** are those of its directory and its name. -/
theorem splitOn_entryPath (name : Bytes) (e : EntryName) :
    (entryPath name e.1).splitOn (byte '/') = dirSegments name ++ [e.1] := by
  unfold entryPath dirSegments
  by_cases hl : name.getLast? = some (byte '/')
  · rw [if_pos hl, if_pos hl]
    obtain ⟨init, rfl⟩ := List.getLast?_eq_some_iff.mp hl
    rw [List.dropLast_concat, List.append_assoc, List.singleton_append,
      List.splitOn_append_cons_self, List.splitOn_eq_singleton e.2.noSlash]
  · rw [if_neg hl, if_neg hl, List.splitOn_append_cons_self, List.splitOn_eq_singleton e.2.noSlash]

/-- The path of an entry does not end with a slash. -/
theorem dirSegments_entryPath (name : Bytes) (e : EntryName) :
    dirSegments (entryPath name e.1) = dirSegments name ++ [e.1] := by
  rw [← splitOn_entryPath]
  have hlast : (entryPath name e.1).getLast? ≠ some (byte '/') := by
    -- the path ends with the name of the entry
    have happ : ∃ x, entryPath name e.1 = x ++ e.1 := by
      unfold entryPath
      split
      · exact ⟨name, rfl⟩
      · exact ⟨name ++ [byte '/'], by simp⟩
    obtain ⟨x, hx⟩ := happ
    rw [hx, List.getLast?_append_of_ne_nil _ e.2.nonempty]
    intro h
    exact e.2.noSlash (List.mem_of_getLast? h)
  unfold dirSegments
  rw [if_neg hlast]

theorem below_entryPath (name : Bytes) (e : EntryName) : Below name (entryPath name e.1) := by
  refine ⟨[e.1], by simp, ?_, splitOn_entryPath name e⟩
  intro s hs
  rw [List.mem_singleton.mp hs]
  exact e.2

/-- What is below a subdirectory is below the directory. -/
theorem Below.up {name key : Bytes} {e : EntryName} (h : Below (entryPath name e.1) key) :
    Below name key := by
  obtain ⟨names, hne, hgood, hsplit⟩ := h
  refine ⟨e.1 :: names, by simp, ?_, ?_⟩
  · intro s hs
    rcases List.mem_cons.mp hs with rfl | hs
    · exact e.2
    · exact hgood s hs
  -- the subdirectory's name comes in front of the segments below it
  · rw [hsplit, dirSegments_entryPath, List.append_assoc, List.singleton_append]

theorem addFile_names {P : Bytes → Prop} {m : MainMap} (h : FileMap.Names P m) {name : Bytes}
    (hname : P name) (node : FsNode) : FileMap.Names P (addFile m name node) := by
  unfold addFile
  cases hload : node.load with
  | none => exact h
  | some f => exact FileMap.Names.update h (u := ⟨name, some f⟩) (fun _ _ => hname)

/-- Adding a file that is not yet known, or not. -/
theorem scanFile_names {P : Bytes → Prop} {m : MainMap} (h : FileMap.Names P m) {name : Bytes}
    (hname : P name) (node : FsNode) :
    FileMap.Names P (if (m name).isNone then addFile m name node else m) := by
  split
  · exact addFile_names h hname node
  · exact h

mutual

/-- **Every file a scan adds is below the directory.** -/
theorem scan_names {P : Bytes → Prop} (node : FsNode) (name : Bytes) (m : MainMap)
    (h : FileMap.Names P m) (hbelow : ∀ k, Below name k → P k) :
    FileMap.Names P (node.scan name m).2 := by
  match node with
  | .directory entries =>
      unfold FsNode.scan
      exact scanEntries_names entries name m h hbelow
  | .file f =>
      unfold FsNode.scan
      exact h
  | .other =>
      unfold FsNode.scan
      exact h

theorem scanEntries_names {P : Bytes → Prop} (entries : List (EntryName × FsNode)) (name : Bytes)
    (m : MainMap) (h : FileMap.Names P m) (hbelow : ∀ k, Below name k → P k) :
    FileMap.Names P (scanEntries name entries m) := by
  match entries with
  | [] =>
      unfold scanEntries
      exact h
  | (e, .directory sub) :: rest =>
      unfold scanEntries
      refine scanEntries_names rest name _ ?_ hbelow
      exact scan_names (.directory sub) (entryPath name e.1) m h (fun k hk => hbelow k hk.up)
  | (e, .file f) :: rest =>
      unfold scanEntries
      exact scanEntries_names rest name _
        (scanFile_names h (hbelow _ (below_entryPath name e)) (.file f)) hbelow
  | (e, .other) :: rest =>
      unfold scanEntries
      exact scanEntries_names rest name _
        (scanFile_names h (hbelow _ (below_entryPath name e)) .other) hbelow

end

theorem addDirectory_names {P : Bytes → Prop} {c : FileCache} (h : FileMap.Names P c.fileMap)
    {name : Bytes} (hbelow : ∀ k, Below name k → P k) (node : Option FsNode) :
    FileMap.Names P (c.addDirectory name node).2.fileMap := by
  unfold FileCache.addDirectory
  cases node with
  | none => exact h
  | some node =>
      have hscan := scan_names node name c.fileMap h hbelow
      dsimp only
      rcases hres : node.scan name c.fileMap with ⟨ok, m⟩
      rw [hres] at hscan
      cases ok <;> exact hscan

/-! ## §4. Directories without empty and dot segments. -/

/-- The directory is absolute and its segments are good; a slash may end it. -/
def AbsoluteDir (dir : Bytes) : Prop :=
  ∃ segs, dirSegments dir = [] :: segs ∧ ∀ s ∈ segs, GoodSegment s

/-- The key is an absolute path of good segments. -/
def CleanKey (key : Bytes) : Prop :=
  ∃ segs, key.splitOn (byte '/') = [] :: segs ∧ ∀ s ∈ segs, GoodSegment s

theorem cleanKey_of_below {dir key : Bytes} (hdir : AbsoluteDir dir) (h : Below dir key) :
    CleanKey key := by
  obtain ⟨segs, hsegs, hgood⟩ := hdir
  obtain ⟨names, -, hnames, hsplit⟩ := h
  refine ⟨segs ++ names, ?_, ?_⟩
  · rw [hsplit, hsegs, List.cons_append]
  · intro s hs
    rcases List.mem_append.mp hs with hs | hs
    · exact hgood s hs
    · exact hnames s hs

/-- **Behind a prefix that ends with a slash, a clean key is made of good
segments alone.** -/
theorem segments_of_cleanKey {dir rel : Bytes} (hdir : dir.getLast? = some (byte '/'))
    (hkey : CleanKey (dir ++ rel)) : ∀ s ∈ rel.splitOn (byte '/'), GoodSegment s := by
  obtain ⟨segs, hsplit, hgood⟩ := hkey
  obtain ⟨init, rfl⟩ := List.getLast?_eq_some_iff.mp hdir
  rw [List.append_assoc, List.singleton_append, List.splitOn_append_cons_self] at hsplit
  -- the prefix has a first segment, the empty one before the root's slash
  obtain ⟨x, xs, hx⟩ := List.exists_cons_of_ne_nil (List.splitOn_ne_nil (byte '/') init)
  rw [hx, List.cons_append, List.cons.injEq] at hsplit
  intro s hs
  exact hgood s (by rw [← hsplit.2]; exact List.mem_append_right _ hs)

/-- Good segments alone: not the empty string, whose only segment is empty. -/
theorem ne_nil_of_goodSegments {rel : Bytes} (h : ∀ s ∈ rel.splitOn (byte '/'), GoodSegment s) :
    rel ≠ [] := by
  rintro rfl
  exact (h [] (by simp [List.splitOn_nil])).nonempty rfl

end Petrel
