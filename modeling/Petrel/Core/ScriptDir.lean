/-
  Petrel.Core.ScriptDir — the search for Lua scripts.

  `load_script_dir` goes over a directory twice: the entries that are no
  directories are tested for their suffix, and the directories are searched in
  their turn.  The suffix is cut off at a position that is the size of the path
  less four, a `size_t`.

  Main results:
    * `lastFour_apply`          — the cut, and the paths it does not work for.
    * `loadScriptDir_returned`  — what is found in a tree of longer paths.
    * `loadScriptDir_long`      — no other tree is searched to its end.
    * `script_dir_exact_iff`    — the trees whose scripts are found.
    * `short_name_throws`       — and one that keeps the server from starting.
-/

import Petrel.Core.FileRefresh
import Petrel.Framework.Code

namespace Petrel

open Framework

/-! ## §1. The search. -/

/-- Why `load_script_dir` throws. -/
inductive ScriptError where
  | filesystem    -- a `runtime_error` with the text of a `filesystem_error`
  | outOfRange    -- a `std::out_of_range`, which is not caught
  deriving DecidableEq

/-- Code over the vector of scripts. -/
abbrev ScriptCode (α : Type) := Code ScriptError Empty (List Bytes) α

/-- `is_directory`. -/
def FsNode.isDirectory : FsNode → Bool
  | .directory _ => true
  | .file _ | .other => false

/-- `s.substr(s.size() - 4)`: the position is a `size_t` and wraps around. -/
def lastFour (s : Bytes) : ScriptCode Bytes :=
  let pos := if s.length < 4 then s.length + 2 ^ 64 - 4 else s.length - 4
  if pos ≤ s.length then pure (s.drop pos) else Code.throw .outOfRange

/-- The test of an entry that is no directory. -/
def scriptEntry (s : Bytes) : ScriptCode Unit := do
  if (← lastFour s) = bytes ".lua" then
    Code.modify (fun vec => vec ++ [s])

/-- The loop over the entries of a directory. -/
def scriptFiles (dir : Bytes) : List (EntryName × FsNode) → ScriptCode Unit
  | [] => pure ()
  | (e, node) :: rest => do
      if !node.isDirectory then
        scriptEntry (entryPath dir e.1)
      scriptFiles dir rest

mutual

/-- `lua_utils::load_script_dir` of the path `dir` that leads to a node. -/
def FsNode.loadScriptDir (dir : Bytes) : FsNode → ScriptCode Unit
  | .directory entries => do
      if dir.length = 0 then pure ()
      else
        scriptFiles dir entries
        loadSubdirs dir entries
  | .file _ => if dir.length = 0 then pure () else Code.throw .filesystem
  | .other => if dir.length = 0 then pure () else Code.throw .filesystem

/-- The loop over the subdirectories. -/
def loadSubdirs (dir : Bytes) : List (EntryName × FsNode) → ScriptCode Unit
  | [] => pure ()
  | (e, .directory sub) :: rest => do
      FsNode.loadScriptDir (entryPath dir e.1) (.directory sub)
      loadSubdirs dir rest
  | (_, .file _) :: rest => loadSubdirs dir rest
  | (_, .other) :: rest => loadSubdirs dir rest

end

/-! ## §2. The entries of one directory. -/

/-- **The cut** needs four bytes. -/
theorem lastFour_apply (s : Bytes) (vec : List Bytes) :
    lastFour s vec = if 4 ≤ s.length then .returned (s.drop (s.length - 4)) vec
      else .threw .outOfRange vec := by
  unfold lastFour
  by_cases hlong : 4 ≤ s.length
  · simp [hlong, Nat.not_lt.mpr hlong]
  · -- the position wraps around to behind the end
    simp [hlong, Nat.lt_of_not_le hlong]

/-- The name of a script. -/
def IsScript (s : Bytes) : Prop := bytes ".lua" <:+ s

instance : DecidablePred IsScript := fun s => inferInstanceAs (Decidable (bytes ".lua" <:+ s))

theorem scriptEntry_returned {s : Bytes} (hlong : 4 ≤ s.length) (vec : List Bytes) :
    scriptEntry s vec = .returned () (vec ++ [s].filter (fun s => IsScript s)) := by
  have hsuffix : s.drop (s.length - 4) = bytes ".lua" ↔ IsScript s := by
    unfold IsScript
    rw [List.suffix_iff_eq_drop, eq_comm]
    rfl
  unfold scriptEntry
  rw [Code.bind_apply, lastFour_apply, if_pos hlong, Outcome.andThen_returned]
  by_cases hscript : IsScript s
  · rw [if_pos (hsuffix.mpr hscript)]
    simp [hscript]
  · rw [if_neg (fun h => hscript (hsuffix.mp h))]
    simp [hscript]

theorem scriptEntry_threw {s : Bytes} (hshort : ¬ 4 ≤ s.length) (vec : List Bytes) :
    scriptEntry s vec = .threw .outOfRange vec := by
  unfold scriptEntry
  rw [Code.bind_apply, lastFour_apply, if_neg hshort]
  rfl

/-- The paths of the entries that are no directories. -/
def entryFiles (dir : Bytes) (entries : List (EntryName × FsNode)) : List Bytes :=
  (entries.filter (fun p => !p.2.isDirectory)).map (fun p => entryPath dir p.1.1)

theorem entryFiles_cons (dir : Bytes) (e : EntryName) (node : FsNode)
    (rest : List (EntryName × FsNode)) :
    entryFiles dir ((e, node) :: rest) =
      (if node.isDirectory then [] else [entryPath dir e.1]) ++ entryFiles dir rest := by
  unfold entryFiles
  cases hnode : node.isDirectory with
  | true => simp [hnode]
  | false => simp [hnode]

/-- **The first loop** takes the scripts among the entries. -/
theorem scriptFiles_returned {dir : Bytes} {entries : List (EntryName × FsNode)}
    (hlong : ∀ s ∈ entryFiles dir entries, 4 ≤ s.length) (vec : List Bytes) :
    scriptFiles dir entries vec =
      .returned () (vec ++ (entryFiles dir entries).filter (fun s => IsScript s)) := by
  induction entries generalizing vec with
  | nil => simp [scriptFiles, entryFiles]
  | cons p rest ih =>
      obtain ⟨e, node⟩ := p
      rw [entryFiles_cons] at hlong ⊢
      have hrest : ∀ s ∈ entryFiles dir rest, 4 ≤ s.length := fun s hs =>
        hlong s (List.mem_append_right _ hs)
      unfold scriptFiles
      cases hnode : node.isDirectory with
      | true =>
          simp only [Bool.not_true, Bool.false_eq_true, if_false, if_true, List.nil_append]
          exact ih hrest vec
      | false =>
          have hpath : 4 ≤ (entryPath dir e.1).length := by
            refine hlong _ (List.mem_append_left _ ?_)
            rw [hnode]
            exact List.mem_singleton.mpr rfl
          simp only [Bool.not_false, if_true, Bool.false_eq_true, if_false, Code.bind_apply,
            scriptEntry_returned hpath, Outcome.andThen_returned, ih hrest]
          rw [List.filter_append, List.append_assoc]

/-- It throws at the first path that is too short. -/
theorem scriptFiles_long {dir : Bytes} {entries : List (EntryName × FsNode)} {vec vec' : List Bytes}
    (h : scriptFiles dir entries vec = .returned () vec') :
    ∀ s ∈ entryFiles dir entries, 4 ≤ s.length := by
  induction entries generalizing vec with
  | nil => exact fun s hs => absurd hs List.not_mem_nil
  | cons p rest ih =>
      obtain ⟨e, node⟩ := p
      unfold scriptFiles at h
      rw [entryFiles_cons]
      cases hnode : node.isDirectory with
      | true =>
          simp only [hnode, Bool.not_true, Bool.false_eq_true, if_false] at h
          exact ih h
      | false =>
          simp only [hnode, Bool.not_false, if_true, Code.bind_apply] at h
          by_cases hpath : 4 ≤ (entryPath dir e.1).length
          · rw [scriptEntry_returned hpath, Outcome.andThen_returned] at h
            intro s hs
            rcases List.mem_append.mp hs with hs | hs
            · simp only [Bool.false_eq_true, if_false, List.mem_singleton] at hs
              rw [hs]
              exact hpath
            · exact ih h s hs
          · rw [scriptEntry_threw hpath] at h
            exact nomatch h

/-! ## §3. The paths below a directory. -/

/-- The path of an entry that is no directory, at any depth. -/
inductive LeafPath : Bytes → List (EntryName × FsNode) → Bytes → Prop where
  | entry {dir : Bytes} {entries : List (EntryName × FsNode)} {e : EntryName} {node : FsNode} :
      (e, node) ∈ entries → node.isDirectory = false → LeafPath dir entries (entryPath dir e.1)
  | inside {dir path : Bytes} {entries sub : List (EntryName × FsNode)} {e : EntryName} :
      (e, .directory sub) ∈ entries → LeafPath (entryPath dir e.1) sub path →
        LeafPath dir entries path

/-- Such a path in one of the subdirectories. -/
def SubPath (dir : Bytes) (entries : List (EntryName × FsNode)) (path : Bytes) : Prop :=
  ∃ e sub, (e, FsNode.directory sub) ∈ entries ∧ LeafPath (entryPath dir e.1) sub path

theorem mem_entryFiles {dir path : Bytes} {entries : List (EntryName × FsNode)} :
    path ∈ entryFiles dir entries ↔
      ∃ e node, (e, node) ∈ entries ∧ node.isDirectory = false ∧ entryPath dir e.1 = path := by
  unfold entryFiles
  simp [and_assoc]

theorem leafPath_iff {dir path : Bytes} {entries : List (EntryName × FsNode)} :
    LeafPath dir entries path ↔ path ∈ entryFiles dir entries ∨ SubPath dir entries path := by
  rw [mem_entryFiles]
  constructor
  · rintro (⟨hmem, hnode⟩ | ⟨hmem, hpath⟩)
    · exact .inl ⟨_, _, hmem, hnode, rfl⟩
    · exact .inr ⟨_, _, hmem, hpath⟩
  · rintro (⟨e, node, hmem, hnode, rfl⟩ | ⟨e, sub, hmem, hpath⟩)
    · exact .entry hmem hnode
    · exact .inside hmem hpath

/-- Below a directory come the segments of the entries. -/
theorem leafPath_segments {dir path : Bytes} {entries : List (EntryName × FsNode)}
    (h : LeafPath dir entries path) :
    ∃ names, names ≠ [] ∧ path.splitOn (byte '/') = dirSegments dir ++ names := by
  induction h with
  | @entry dir entries e node _ _ =>
      exact ⟨[e.1], List.cons_ne_nil _ _, splitOn_entryPath dir e⟩
  | @inside dir path entries sub e _ _ ih =>
      obtain ⟨names, -, hsplit⟩ := ih
      refine ⟨e.1 :: names, List.cons_ne_nil _ _, ?_⟩
      rw [hsplit, dirSegments_entryPath, List.append_assoc, List.singleton_append]

/-- In a subdirectory there are at least two of them. -/
theorem subPath_segments {dir path : Bytes} {e : EntryName} {sub : List (EntryName × FsNode)}
    (h : LeafPath (entryPath dir e.1) sub path) :
    ∃ names, names ≠ [] ∧ path.splitOn (byte '/') = dirSegments dir ++ e.1 :: names := by
  obtain ⟨names, hne, hsplit⟩ := leafPath_segments h
  rw [dirSegments_entryPath, List.append_assoc, List.singleton_append] at hsplit
  exact ⟨names, hne, hsplit⟩

/-- A path leads through one entry. -/
theorem subPath_entry {dir path : Bytes} {e e' : EntryName} {sub sub' : List (EntryName × FsNode)}
    (h : LeafPath (entryPath dir e.1) sub path) (h' : LeafPath (entryPath dir e'.1) sub' path) :
    e = e' := by
  obtain ⟨names, -, hsplit⟩ := subPath_segments h
  obtain ⟨names', -, hsplit'⟩ := subPath_segments h'
  rw [hsplit] at hsplit'
  exact Subtype.ext (List.cons.inj (List.append_cancel_left hsplit')).1

theorem entryPath_injective (dir : Bytes) {e e' : EntryName}
    (h : entryPath dir e.1 = entryPath dir e'.1) : e = e' := by
  have hsplit := splitOn_entryPath dir e
  rw [h, splitOn_entryPath] at hsplit
  exact Subtype.ext (List.cons.inj (List.append_cancel_left hsplit)).1.symm

theorem entryFiles_nodup (dir : Bytes) {entries : List (EntryName × FsNode)}
    (hnodup : (entries.map Prod.fst).Nodup) : (entryFiles dir entries).Nodup := by
  have hnames : ((entries.filter (fun p => !p.2.isDirectory)).map Prod.fst).Nodup :=
    hnodup.sublist (List.filter_sublist.map Prod.fst)
  have hmap : entryFiles dir entries =
      ((entries.filter (fun p => !p.2.isDirectory)).map Prod.fst).map
        (fun e => entryPath dir e.1) := by
    rw [List.map_map]
    rfl
  rw [hmap]
  exact hnames.map (fun e e' => entryPath_injective dir)

/-- No entry of a directory is found in a subdirectory again. -/
theorem entryFiles_disjoint {dir path : Bytes} {entries : List (EntryName × FsNode)}
    (hfile : path ∈ entryFiles dir entries) : ¬ SubPath dir entries path := by
  rintro ⟨e', sub, -, hsub⟩
  obtain ⟨e, node, -, -, rfl⟩ := mem_entryFiles.mp hfile
  obtain ⟨names, hne, hsplit⟩ := subPath_segments hsub
  rw [splitOn_entryPath] at hsplit
  exact hne (List.cons.inj (List.append_cancel_left hsplit)).2.symm

/-! ## §4. The whole search. -/

/-- The scripts among some paths have been found, each once. -/
def Found (P : Bytes → Prop) (x : ScriptCode Unit) (vec : List Bytes) : Prop :=
  ∃ found, x vec = .returned () (vec ++ found) ∧ found.Nodup ∧
    ∀ path, path ∈ found ↔ P path ∧ IsScript path

/-- The path of an entry is longer than that of its directory. -/
theorem entryPath_length (dir : Bytes) (e : EntryName) : dir.length < (entryPath dir e.1).length := by
  have := List.length_pos_of_ne_nil e.2.nonempty
  unfold entryPath
  split
  · rw [List.length_append]
    omega
  · rw [List.length_append, List.length_cons]
    omega

theorem entryPath_ne_nil (dir : Bytes) (e : EntryName) : (entryPath dir e.1).length ≠ 0 :=
  Nat.ne_zero_of_lt (entryPath_length dir e)

/-- One subdirectory more. -/
theorem Found.subdir {dir : Bytes} {e : EntryName} {sub rest : List (EntryName × FsNode)}
    (he : e ∉ rest.map Prod.fst) {vec : List Bytes}
    (hsub : Found (LeafPath (entryPath dir e.1) sub)
      (FsNode.loadScriptDir (entryPath dir e.1) (.directory sub)) vec)
    (hrest : ∀ vec, Found (SubPath dir rest) (loadSubdirs dir rest) vec) :
    Found (SubPath dir ((e, .directory sub) :: rest))
      (loadSubdirs dir ((e, .directory sub) :: rest)) vec := by
  obtain ⟨found, hret, hnodup, hmem⟩ := hsub
  obtain ⟨found', hret', hnodup', hmem'⟩ := hrest (vec ++ found)
  refine ⟨found ++ found', ?_, ?_, fun path => ?_⟩
  · unfold loadSubdirs
    rw [Code.bind_apply, hret, Outcome.andThen_returned, hret', List.append_assoc]
  · refine List.nodup_append.mpr ⟨hnodup, hnodup', fun path hpath path' hpath' heq => ?_⟩
    subst heq
    obtain ⟨e', sub', hmem', hleaf⟩ := ((hmem' path).mp hpath').1
    obtain rfl := subPath_entry ((hmem path).mp hpath).1 hleaf
    exact he (List.mem_map_of_mem hmem')
  · rw [List.mem_append, hmem, hmem', ← or_and_right]
    refine and_congr_left fun _ => ?_
    constructor
    · rintro (h | ⟨e', sub', hmem, h⟩)
      · exact ⟨e, sub, List.mem_cons_self, h⟩
      · exact ⟨e', sub', List.mem_cons_of_mem _ hmem, h⟩
    · rintro ⟨e', sub', hmem, h⟩
      rcases List.mem_cons.mp hmem with heq | hmem
      · obtain ⟨rfl, hsub⟩ := Prod.mk.inj heq
        obtain rfl := FsNode.directory.inj hsub
        exact .inl h
      · exact .inr ⟨e', sub', hmem, h⟩

/-- A path below the other entries. -/
theorem SubPath.cons {dir path : Bytes} {rest : List (EntryName × FsNode)} (h : SubPath dir rest path)
    (p : EntryName × FsNode) : SubPath dir (p :: rest) path := by
  obtain ⟨e, sub, hmem, hleaf⟩ := h
  exact ⟨e, sub, List.mem_cons_of_mem p hmem, hleaf⟩

/-- An entry that is no directory is passed over. -/
theorem Found.leaf {dir : Bytes} {e : EntryName} {node : FsNode} (hnode : node.isDirectory = false)
    {rest : List (EntryName × FsNode)} {x : ScriptCode Unit} {vec : List Bytes}
    (h : Found (SubPath dir rest) x vec) : Found (SubPath dir ((e, node) :: rest)) x vec := by
  obtain ⟨found, hret, hnodup, hmem⟩ := h
  refine ⟨found, hret, hnodup, fun path => ?_⟩
  rw [hmem]
  refine and_congr_left fun _ => ⟨fun h => h.cons _, ?_⟩
  rintro ⟨e', sub, hmem, h⟩
  rcases List.mem_cons.mp hmem with heq | hmem
  · rw [← (Prod.mk.inj heq).2] at hnode
    exact nomatch hnode
  · exact ⟨e', sub, hmem, h⟩

theorem FsNode.Distinct.entries {entries : List (EntryName × FsNode)}
    (h : (FsNode.directory entries).Distinct) :
    (entries.map Prod.fst).Nodup ∧ ∀ p ∈ entries, p.2.Distinct := by
  cases h with
  | directory _ hnodup hsub => exact ⟨hnodup, hsub⟩

mutual

/-- **What is found** in a tree without short paths. -/
theorem loadScriptDir_returned {entries : List (EntryName × FsNode)} (node : FsNode)
    (hnode : node = .directory entries) {dir : Bytes} (hdir : dir.length ≠ 0) (hdist : node.Distinct)
    (hlong : ∀ path, LeafPath dir entries path → 4 ≤ path.length) (vec : List Bytes) :
    Found (LeafPath dir entries) (node.loadScriptDir dir) vec := by
  match node with
  | .directory entries' =>
      obtain rfl := FsNode.directory.inj hnode
      obtain ⟨hnodup, hsub⟩ := hdist.entries
      have hfiles : ∀ s ∈ entryFiles dir entries', 4 ≤ s.length := fun s hs =>
        hlong s (leafPath_iff.mpr (.inl hs))
      obtain ⟨found, hret, hsubs, hmem⟩ := loadSubdirs_returned entries' hnodup hsub
        (fun path hpath => hlong path (leafPath_iff.mpr (.inr hpath)))
        (vec ++ (entryFiles dir entries').filter (fun s => IsScript s))
      refine ⟨(entryFiles dir entries').filter (fun s => IsScript s) ++ found, ?_, ?_, fun path => ?_⟩
      · unfold FsNode.loadScriptDir
        rw [if_neg hdir, Code.bind_apply, scriptFiles_returned hfiles, Outcome.andThen_returned, hret,
          List.append_assoc]
      · refine List.nodup_append.mpr ⟨(entryFiles_nodup dir hnodup).filter _, hsubs, ?_⟩
        intro path hpath path' hpath' heq
        subst heq
        exact entryFiles_disjoint (List.mem_filter.mp hpath).1 ((hmem path).mp hpath').1
      · rw [List.mem_append, List.mem_filter, hmem, leafPath_iff, or_and_right, decide_eq_true_iff]

/-- **What is found** in the subdirectories. -/
theorem loadSubdirs_returned (entries : List (EntryName × FsNode)) {dir : Bytes}
    (hnodup : (entries.map Prod.fst).Nodup) (hdist : ∀ p ∈ entries, p.2.Distinct)
    (hlong : ∀ path, SubPath dir entries path → 4 ≤ path.length) (vec : List Bytes) :
    Found (SubPath dir entries) (loadSubdirs dir entries) vec := by
  match entries with
  | [] =>
      refine ⟨[], ?_, List.nodup_nil, fun path => ?_⟩
      · unfold loadSubdirs
        rw [List.append_nil]
        rfl
      · refine iff_of_false List.not_mem_nil ?_
        rintro ⟨⟨e, sub, hmem, -⟩, -⟩
        exact List.not_mem_nil hmem
  | (e, .directory sub) :: rest =>
      obtain ⟨he, hrest⟩ := List.nodup_cons.mp hnodup
      refine Found.subdir he ?_ fun vec => ?_
      · exact loadScriptDir_returned (.directory sub) rfl (entryPath_ne_nil dir e)
          (hdist _ List.mem_cons_self) (fun path h => hlong path ⟨e, sub, List.mem_cons_self, h⟩) vec
      · exact loadSubdirs_returned rest hrest (fun p hp => hdist p (List.mem_cons_of_mem _ hp))
          (fun path h => hlong path (h.cons _)) vec
  | (e, .file f) :: rest =>
      unfold loadSubdirs
      exact Found.leaf rfl (loadSubdirs_returned rest (List.nodup_cons.mp hnodup).2
        (fun p hp => hdist p (List.mem_cons_of_mem _ hp)) (fun path h => hlong path (h.cons _)) vec)
  | (e, .other) :: rest =>
      unfold loadSubdirs
      exact Found.leaf rfl (loadSubdirs_returned rest (List.nodup_cons.mp hnodup).2
        (fun p hp => hdist p (List.mem_cons_of_mem _ hp)) (fun path h => hlong path (h.cons _)) vec)

end

/-- The search of a directory has gone through its two loops. -/
theorem loadScriptDir_loops {dir : Bytes} (hdir : dir.length ≠ 0)
    {entries : List (EntryName × FsNode)} {vec vec' : List Bytes}
    (h : (FsNode.directory entries).loadScriptDir dir vec = .returned () vec') :
    ∃ vec₁, scriptFiles dir entries vec = .returned () vec₁ ∧
      loadSubdirs dir entries vec₁ = .returned () vec' := by
  unfold FsNode.loadScriptDir at h
  rw [if_neg hdir, Code.bind_apply] at h
  obtain ⟨_, vec₁, hfiles, hsubdirs⟩ := Outcome.andThen_eq_returned h
  exact ⟨vec₁, hfiles, hsubdirs⟩

/-- The loop over the subdirectories has searched each of them. -/
theorem loadSubdirs_mem {dir : Bytes} {entries sub : List (EntryName × FsNode)} {e : EntryName}
    (hmem : (e, .directory sub) ∈ entries) {vec vec' : List Bytes}
    (h : loadSubdirs dir entries vec = .returned () vec') :
    ∃ v v', (FsNode.directory sub).loadScriptDir (entryPath dir e.1) v = .returned () v' := by
  induction entries generalizing vec with
  | nil => exact absurd hmem List.not_mem_nil
  | cons p rest ih =>
      obtain ⟨e', node⟩ := p
      cases node with
      | directory sub' =>
          unfold loadSubdirs at h
          rw [Code.bind_apply] at h
          obtain ⟨_, vec₁, hsub, hrest⟩ := Outcome.andThen_eq_returned h
          rcases List.mem_cons.mp hmem with heq | hmem
          · obtain ⟨rfl, hnode⟩ := Prod.mk.inj heq
            obtain rfl := FsNode.directory.inj hnode
            exact ⟨vec, vec₁, hsub⟩
          · exact ih hmem hrest
      | file f =>
          unfold loadSubdirs at h
          exact ih ((List.mem_cons.mp hmem).resolve_left (fun h => nomatch h)) h
      | other =>
          unfold loadSubdirs at h
          exact ih ((List.mem_cons.mp hmem).resolve_left (fun h => nomatch h)) h

/-- **No other tree is searched to its end**: every path has been cut. -/
theorem loadScriptDir_long {dir path : Bytes} {entries : List (EntryName × FsNode)}
    (hpath : LeafPath dir entries path) (hdir : dir.length ≠ 0) {vec vec' : List Bytes}
    (h : (FsNode.directory entries).loadScriptDir dir vec = .returned () vec') :
    4 ≤ path.length := by
  induction hpath generalizing vec vec' with
  | entry hmem hnode =>
      obtain ⟨vec₁, hfiles, -⟩ := loadScriptDir_loops hdir h
      exact scriptFiles_long hfiles _ (mem_entryFiles.mpr ⟨_, _, hmem, hnode, rfl⟩)
  | @inside dir path entries sub e hmem _ ih =>
      obtain ⟨vec₁, -, hsubdirs⟩ := loadScriptDir_loops hdir h
      obtain ⟨v, v', hsub⟩ := loadSubdirs_mem hmem hsubdirs
      exact ih (entryPath_ne_nil dir e) hsub

/-- **THE SEARCH FINDS EXACTLY THE LUA FILES**, each once, just if no entry that is
no directory has a path of less than four bytes. -/
theorem script_dir_exact_iff {dir : Bytes} (hdir : dir ≠ []) {entries : List (EntryName × FsNode)}
    (hdist : (FsNode.directory entries).Distinct) (vec : List Bytes) :
    Found (LeafPath dir entries) ((FsNode.directory entries).loadScriptDir dir) vec ↔
      ∀ path, LeafPath dir entries path → 4 ≤ path.length := by
  have hlength : dir.length ≠ 0 := fun h => hdir (List.length_eq_zero_iff.mp h)
  constructor
  · rintro ⟨found, hret, -⟩ path hpath
    exact loadScriptDir_long hpath hlength hret
  · exact fun hlong => loadScriptDir_returned (.directory entries) rfl hlength hdist hlong vec

/-- A path below a directory is longer than the directory's. -/
theorem leafPath_length {dir path : Bytes} {entries : List (EntryName × FsNode)}
    (h : LeafPath dir entries path) : dir.length < path.length := by
  induction h with
  | @entry dir entries e node _ _ => exact entryPath_length dir e
  | @inside dir path entries sub e _ _ ih => exact (entryPath_length dir e).trans ih

/-- A directory with one file. -/
def oneEntry (name : EntryName) : List (EntryName × FsNode) := [(name, .other)]

theorem oneEntry_distinct (name : EntryName) : (FsNode.directory (oneEntry name)).Distinct := by
  refine .directory _ (List.nodup_singleton _) fun p hp => ?_
  rw [List.mem_singleton.mp hp]
  exact .other

theorem goodSegment_init : GoodSegment (bytes "init.lua") := by
  constructor <;> decide

theorem goodSegment_readme : GoodSegment (bytes "README") := by
  constructor <;> decide

theorem goodSegment_handlers : GoodSegment (bytes "handlers") := by
  constructor <;> decide

theorem goodSegment_a : GoodSegment (bytes "a") := by
  constructor <;> decide

/-- `init.lua`, `README` and `handlers/init.lua`. -/
def scriptTree : List (EntryName × FsNode) :=
  [(⟨_, goodSegment_init⟩, .file ⟨0, 0, [], true⟩), (⟨_, goodSegment_readme⟩, .file ⟨0, 0, [], true⟩),
    (⟨_, goodSegment_handlers⟩, .directory (oneEntry ⟨_, goodSegment_init⟩))]

theorem scriptTree_distinct : (FsNode.directory scriptTree).Distinct := by
  have hnodup : (scriptTree.map Prod.fst).Nodup := by
    decide
  refine .directory _ hnodup ?_
  unfold scriptTree
  rw [List.forall_mem_cons, List.forall_mem_cons, List.forall_mem_singleton]
  exact ⟨.file _, .file _, oneEntry_distinct _⟩

/-- Two of the three files below `lua` are scripts. -/
theorem script_dir_exact_iff_init :
    Found (LeafPath (bytes "lua") scriptTree)
      ((FsNode.directory scriptTree).loadScriptDir (bytes "lua")) [] := by
  refine (script_dir_exact_iff (by decide) scriptTree_distinct []).mpr fun path hpath => ?_
  exact leafPath_length hpath

/-- **A file `a` below `.` keeps the server from starting**: its path is `./a`. -/
theorem short_name_throws :
    (FsNode.directory (oneEntry ⟨_, goodSegment_a⟩)).loadScriptDir (bytes ".") [] =
        .threw .outOfRange [] ∧
      ¬ Found (LeafPath (bytes ".") (oneEntry ⟨_, goodSegment_a⟩))
        ((FsNode.directory (oneEntry ⟨_, goodSegment_a⟩)).loadScriptDir (bytes ".")) [] := by
  have hthrew : (FsNode.directory (oneEntry ⟨_, goodSegment_a⟩)).loadScriptDir (bytes ".") [] =
      .threw .outOfRange [] := by
    unfold FsNode.loadScriptDir scriptFiles oneEntry
    rfl
  refine ⟨hthrew, ?_⟩
  rintro ⟨found, hret, -⟩
  rw [hthrew] at hret
  exact nomatch hret

end Petrel
