/-
  Petrel.Lib.LoadLib — `petrel.load_lib`.

  The directories of the search path are tried in their order: the file has to
  exist, the linker has to open it, and five symbols have to be in it.  Every
  exit of the loop body closes the handle and goes on with the next directory,
  but one, which leaves the function.

  Main results:
    * `loadCandidate_complete`, `loadCandidate_rejected` — one directory.
    * `loadLib_settled`    — every call returns and leaves the linker settled.
    * `load_lib_exact_iff` — the searches that register the first complete
      library, and close the handles of the others.
    * `broken_copy_shadows` — a copy without `petrel_lib_open` in front of a
      complete one.
-/

import Petrel.Core.Bytes
import Petrel.Framework.Code

namespace Petrel

open Framework

/-! ## §1. The dynamic linker. -/

/-- What is found under the name of a library. -/
inductive Candidate where
  | absent
  | refused                                   -- `dlopen` fails
  | shared (symbols : Bytes → Option Nat)     -- the addresses of the symbols

/-- What the search meets outside of this code: the files, what the function at
an address returns as the name of its library, and how a file is named. -/
structure LinkEnv where
  disk : Bytes → Candidate
  nameAt : Nat → Bytes
  libPrefix : Bytes := bytes "lib"
  libSuffix : Bytes := bytes ".so"

/-- `lib_reg` -/
structure LibReg where
  name : Bytes
  openFunc : Nat
  initFunc : Nat
  unloadFunc : Nat
  deriving DecidableEq

/-- The linker, and the libraries of the state manager. -/
structure LinkState where
  pending : Bool := false        -- an error that `dlerror` has not told yet
  nextHandle : Nat := 0
  opened : List Nat := []        -- the handles that have not been closed
  libs : List LibReg := []
  loaded : List Nat := []        -- the load functions that have been called

/-- Code of the search. -/
abbrev LinkCode (α : Type) := Code Empty Empty LinkState α

/-- `dlopen` of a file that the linker takes. -/
def dlopen : LinkCode Nat := fun s =>
  .returned s.nextHandle { s with nextHandle := s.nextHandle + 1, opened := s.opened ++ [s.nextHandle] }

def dlclose (hndl : Nat) : LinkCode Unit :=
  Code.modify (fun s => { s with opened := s.opened.erase hndl })

/-- `dlsym`: an unknown symbol leaves an error. -/
def dlsym (symbols : Bytes → Option Nat) (name : Bytes) : LinkCode Nat := fun s =>
  match symbols name with
  | some addr => .returned addr s
  | none => .returned 0 { s with pending := true }

/-- `dlerror`: is there an error since it was last asked. -/
def dlerror : LinkCode Bool := fun s => .returned s.pending { s with pending := false }

/-- `lua_state_manager::register_lib`. -/
def registerLib (name : Bytes) (openFunc initFunc : Nat) (loadFunc : Option Nat) (unloadFunc : Nat) :
    LinkCode Unit :=
  Code.modify (fun s => { s with
    libs := s.libs ++ [⟨name, openFunc, initFunc, unloadFunc⟩]
    loaded := s.loaded ++ loadFunc.toList })

/-! ## §2. The search. -/

/-- Where the loop body goes on. -/
inductive Exit where
  | next     -- `continue`
  | leave    -- `return 0`
  deriving DecidableEq

/-- `dlsym` with the check of `dlerror`: without the symbol the handle is closed. -/
def symbol (hndl : Nat) (symbols : Bytes → Option Nat) (name : Bytes) : LinkCode (Option Nat) := do
  let addr ← dlsym symbols name
  if ← dlerror then
    dlclose hndl
    pure none
  else pure (some addr)

/-- The name of the file in a directory. -/
def LinkEnv.fileName (env : LinkEnv) (lib path : Bytes) : Bytes :=
  path ++ bytes "/" ++ env.libPrefix ++ lib ++ env.libSuffix

/-- The body of the loop for a file. -/
def loadCandidate (nameAt : Nat → Bytes) : Candidate → LinkCode Exit
  | .absent => pure .next
  | .refused => do
      Code.modify (fun s => { s with pending := true })
      let _ ← dlerror
      pure .next
  | .shared symbols => do
      let hndl ← dlopen
      let some nameFunc ← symbol hndl symbols (bytes "petrel_lib_name") | pure .next
      -- the one exit that leaves the loop
      let some openFunc ← symbol hndl symbols (bytes "petrel_lib_open") | pure .leave
      let some initFunc ← symbol hndl symbols (bytes "petrel_lib_init") | pure .next
      let some loadFunc ← symbol hndl symbols (bytes "petrel_lib_load") | pure .next
      let some unloadFunc ← symbol hndl symbols (bytes "petrel_lib_unload") | pure .next
      registerLib (nameAt nameFunc) openFunc initFunc (some loadFunc) unloadFunc
      pure .leave

/-- `petrel::load_lib` over the search path. -/
def loadLib (env : LinkEnv) (lib : Bytes) : List Bytes → LinkCode Unit
  | [] => pure ()
  | path :: paths => do
      match ← loadCandidate env.nameAt (env.disk (env.fileName lib path)) with
      | .next => loadLib env lib paths
      | .leave => pure ()

/-! ## §3. One directory. -/

/-- Between the calls there is no error to tell, and the next handle is new. -/
structure LinkState.Settled (s : LinkState) : Prop where
  noError : s.pending = false
  fresh : ∀ h ∈ s.opened, h < s.nextHandle

/-- The library that a file registers, if it has the five symbols. -/
def Candidate.complete? (nameAt : Nat → Bytes) : Candidate → Option LibReg
  | .absent | .refused => none
  | .shared symbols => do
      let nameFunc ← symbols (bytes "petrel_lib_name")
      let openFunc ← symbols (bytes "petrel_lib_open")
      let initFunc ← symbols (bytes "petrel_lib_init")
      let _ ← symbols (bytes "petrel_lib_load")
      let unloadFunc ← symbols (bytes "petrel_lib_unload")
      some ⟨nameAt nameFunc, openFunc, initFunc, unloadFunc⟩

/-- The first symbol that is missing in a file is `petrel_lib_open`. -/
def Candidate.StopsAtOpen : Candidate → Prop
  | .absent | .refused => False
  | .shared symbols =>
      (symbols (bytes "petrel_lib_name")).isSome ∧ symbols (bytes "petrel_lib_open") = none

theorem dlsym_found {symbols : Bytes → Option Nat} {name : Bytes} {addr : Nat}
    (h : symbols name = some addr) (s : LinkState) : dlsym symbols name s = .returned addr s := by
  unfold dlsym
  rw [h]

theorem dlsym_missing {symbols : Bytes → Option Nat} {name : Bytes} (h : symbols name = none)
    (s : LinkState) : dlsym symbols name s = .returned 0 { s with pending := true } := by
  unfold dlsym
  rw [h]

theorem dlerror_apply (s : LinkState) :
    dlerror s = .returned s.pending { s with pending := false } := rfl

theorem LinkState.clear_eq {s : LinkState} (hs : s.pending = false) :
    ({ s with pending := false } : LinkState) = s := by
  rw [← hs]

theorem symbol_found {symbols : Bytes → Option Nat} {name : Bytes} {addr : Nat}
    (h : symbols name = some addr) (hndl : Nat) {s : LinkState} (hs : s.pending = false) :
    symbol hndl symbols name s = .returned (some addr) s := by
  unfold symbol
  rw [Code.bind_apply, dlsym_found h, Outcome.andThen_returned, Code.bind_apply, dlerror_apply, hs,
    LinkState.clear_eq hs]
  rfl

theorem symbol_missing {symbols : Bytes → Option Nat} {name : Bytes} (h : symbols name = none)
    (hndl : Nat) {s : LinkState} (hs : s.pending = false) :
    symbol hndl symbols name s = .returned none { s with opened := s.opened.erase hndl } := by
  unfold symbol
  rw [Code.bind_apply, dlsym_missing h, Outcome.andThen_returned, Code.bind_apply, dlerror_apply]
  show Outcome.returned none { s with pending := false, opened := s.opened.erase hndl } = _
  rw [← hs]

/-- **A complete library** is registered, and its handle stays open. -/
theorem loadCandidate_complete {nameAt : Nat → Bytes} {c : Candidate} {reg : LibReg}
    (h : c.complete? nameAt = some reg) {s : LinkState} (hs : s.Settled) :
    ∃ s', loadCandidate nameAt c s = .returned .leave s' ∧ s'.libs = s.libs ++ [reg] ∧
      s'.opened = s.opened ++ [s.nextHandle] ∧ s'.Settled := by
  cases c with
  | absent => exact nomatch h
  | refused => exact nomatch h
  | shared symbols =>
      simp only [Candidate.complete?, Option.bind_eq_bind, Option.bind_eq_some_iff] at h
      obtain ⟨nameFunc, hname, openFunc, hopen, initFunc, hinit, loadFunc, hload, unloadFunc, hunload,
        hreg⟩ := h
      obtain rfl := Option.some.inj hreg
      let s₁ : LinkState :=
        { s with nextHandle := s.nextHandle + 1, opened := s.opened ++ [s.nextHandle] }
      have hs₁ : s₁.pending = false := hs.noError
      have hopened : dlopen s = .returned s.nextHandle s₁ := rfl
      have hfresh : ∀ h ∈ s.opened ++ [s.nextHandle], h < s.nextHandle + 1 := by
        intro h hmem
        rcases List.mem_append.mp hmem with hold | hnew
        · exact (hs.fresh h hold).trans (Nat.lt_succ_self _)
        · rw [List.mem_singleton.mp hnew]
          exact Nat.lt_succ_self _
      refine ⟨{ s₁ with
        libs := s₁.libs ++ [⟨nameAt nameFunc, openFunc, initFunc, unloadFunc⟩]
        loaded := s₁.loaded ++ [loadFunc] }, ?_, rfl, rfl, ⟨hs₁, hfresh⟩⟩
      unfold loadCandidate
      simp only [Code.bind_apply, hopened, Outcome.andThen_returned, symbol_found hname _ hs₁,
        symbol_found hopen _ hs₁, symbol_found hinit _ hs₁, symbol_found hload _ hs₁,
        symbol_found hunload _ hs₁]
      rfl

/-- The new handle is the one that is closed again. -/
theorem LinkState.Settled.erase_new {s : LinkState} (hs : s.Settled) :
    (s.opened ++ [s.nextHandle]).erase s.nextHandle = s.opened := by
  have hnew : s.nextHandle ∉ s.opened := fun h => absurd (hs.fresh _ h) (Nat.lt_irrefl _)
  rw [List.erase_append_right _ hnew, List.erase_cons_head, List.append_nil]

/-- **Any other file** leaves the libraries and the open handles as they were. -/
theorem loadCandidate_rejected {nameAt : Nat → Bytes} {c : Candidate}
    (h : c.complete? nameAt = none) {s : LinkState} (hs : s.Settled) :
    ∃ exit s', loadCandidate nameAt c s = .returned exit s' ∧ (exit = .leave ↔ c.StopsAtOpen) ∧
      s'.libs = s.libs ∧ s'.opened = s.opened ∧ s'.Settled := by
  cases c with
  | absent => exact ⟨.next, s, rfl, iff_of_false (fun h => nomatch h) (fun h => h), rfl, rfl, hs⟩
  | refused =>
      exact ⟨.next, { s with pending := false }, rfl, iff_of_false (fun h => nomatch h) (fun h => h),
        rfl, rfl, ⟨rfl, hs.fresh⟩⟩
  | shared symbols =>
      let s₁ : LinkState :=
        { s with nextHandle := s.nextHandle + 1, opened := s.opened ++ [s.nextHandle] }
      have hs₁ : s₁.pending = false := hs.noError
      have hopened : dlopen s = .returned s.nextHandle s₁ := rfl
      -- whatever symbol is missing, the new handle is closed
      let s₂ : LinkState := { s₁ with opened := s₁.opened.erase s.nextHandle }
      have hclosed : s₂.opened = s.opened := hs.erase_new
      have hs₂ : s₂.Settled :=
        ⟨hs₁, fun h hmem => (hs.fresh h (hclosed ▸ hmem)).trans (Nat.lt_succ_self _)⟩
      have hmissing : ∀ {name : Bytes}, symbols name = none →
          symbol s.nextHandle symbols name s₁ = .returned none s₂ :=
        fun hname => symbol_missing hname _ hs₁
      have hfound : ∀ {name : Bytes} {addr : Nat}, symbols name = some addr →
          symbol s.nextHandle symbols name s₁ = .returned (some addr) s₁ :=
        fun hname => symbol_found hname _ hs₁
      suffices hrun : ∃ exit, loadCandidate nameAt (.shared symbols) s = .returned exit s₂ ∧
          (exit = .leave ↔ (Candidate.shared symbols).StopsAtOpen) by
        obtain ⟨exit, hrun, hexit⟩ := hrun
        exact ⟨exit, s₂, hrun, hexit, rfl, hclosed, hs₂⟩
      unfold loadCandidate Candidate.StopsAtOpen
      simp only [Code.bind_apply, hopened, Outcome.andThen_returned]
      cases hname : symbols (bytes "petrel_lib_name") with
      | none =>
          rw [hmissing hname]
          exact ⟨.next, rfl, by simp⟩
      | some nameFunc =>
          simp only [hfound hname, Outcome.andThen_returned, Code.bind_apply]
          cases hopen : symbols (bytes "petrel_lib_open") with
          | none =>
              rw [hmissing hopen]
              exact ⟨.leave, rfl, by simp⟩
          | some openFunc =>
              simp only [hfound hopen, Outcome.andThen_returned, Code.bind_apply]
              cases hinit : symbols (bytes "petrel_lib_init") with
              | none =>
                  rw [hmissing hinit]
                  exact ⟨.next, rfl, by simp⟩
              | some initFunc =>
                  simp only [hfound hinit, Outcome.andThen_returned, Code.bind_apply]
                  cases hload : symbols (bytes "petrel_lib_load") with
                  | none =>
                      rw [hmissing hload]
                      exact ⟨.next, rfl, by simp⟩
                  | some loadFunc =>
                      simp only [hfound hload, Outcome.andThen_returned, Code.bind_apply]
                      cases hunload : symbols (bytes "petrel_lib_unload") with
                      | none =>
                          rw [hmissing hunload]
                          exact ⟨.next, rfl, by simp⟩
                      | some unloadFunc =>
                          -- the library is complete
                          simp [Candidate.complete?, hname, hopen, hinit, hload, hunload] at h

/-- Every call leaves the linker settled. -/
theorem loadLib_settled (env : LinkEnv) (lib : Bytes) (paths : List Bytes) {s : LinkState}
    (hs : s.Settled) : ∃ s', loadLib env lib paths s = .returned () s' ∧ s'.Settled := by
  induction paths generalizing s with
  | nil => exact ⟨s, rfl, hs⟩
  | cons path paths ih =>
      unfold loadLib
      rw [Code.bind_apply]
      cases hcomplete : (env.disk (env.fileName lib path)).complete? env.nameAt with
      | some reg =>
          obtain ⟨s', hrun, -, -, hs'⟩ := loadCandidate_complete hcomplete hs
          rw [hrun]
          exact ⟨s', rfl, hs'⟩
      | none =>
          obtain ⟨exit, s', hrun, -, -, -, hs'⟩ := loadCandidate_rejected hcomplete hs
          rw [hrun]
          cases exit with
          | next => exact ih hs'
          | leave => exact ⟨s', rfl, hs'⟩

/-! ## §4. The search path. -/

/-- The library of the first directory with a complete one. -/
def firstComplete (env : LinkEnv) (lib : Bytes) (paths : List Bytes) : Option LibReg :=
  paths.findSome? (fun path => (env.disk (env.fileName lib path)).complete? env.nameAt)

/-- **The search registers the first complete library** and nothing else, and the
handles of the other files are closed. -/
def LoadsFirst (env : LinkEnv) (lib : Bytes) (paths : List Bytes) (s : LinkState) : Prop :=
  ∃ s', loadLib env lib paths s = .returned () s' ∧
    match firstComplete env lib paths with
    | none => s'.libs = s.libs ∧ s'.opened = s.opened
    | some reg => s'.libs = s.libs ++ [reg] ∧ ∃ hndl, s'.opened = s.opened ++ [hndl]

/-- A file that stops the search stands in front of every complete one, of which
there is one. -/
def Shadowed (env : LinkEnv) (lib : Bytes) (paths : List Bytes) : Prop :=
  ∃ before path after, paths = before ++ path :: after ∧ firstComplete env lib before = none ∧
    (env.disk (env.fileName lib path)).StopsAtOpen ∧ firstComplete env lib after ≠ none

theorem complete?_of_stopsAtOpen {nameAt : Nat → Bytes} {c : Candidate} (h : c.StopsAtOpen) :
    c.complete? nameAt = none := by
  cases c with
  | absent => rfl
  | refused => rfl
  | shared symbols =>
      obtain ⟨-, hopen⟩ := h
      cases hname : symbols (bytes "petrel_lib_name") with
      | none => simp [Candidate.complete?, hname]
      | some nameFunc => simp [Candidate.complete?, hname, hopen]

theorem firstComplete_eq_none_iff {env : LinkEnv} {lib : Bytes} {paths : List Bytes} :
    firstComplete env lib paths = none ↔
      ∀ path ∈ paths, (env.disk (env.fileName lib path)).complete? env.nameAt = none :=
  List.findSome?_eq_none_iff

theorem firstComplete_cons_none {env : LinkEnv} {lib path : Bytes} {paths : List Bytes}
    (h : (env.disk (env.fileName lib path)).complete? env.nameAt = none) :
    firstComplete env lib (path :: paths) = firstComplete env lib paths := by
  unfold firstComplete
  rw [List.findSome?_cons, h]

theorem firstComplete_cons_some {env : LinkEnv} {lib path : Bytes} {paths : List Bytes} {reg : LibReg}
    (h : (env.disk (env.fileName lib path)).complete? env.nameAt = some reg) :
    firstComplete env lib (path :: paths) = some reg := by
  unfold firstComplete
  rw [List.findSome?_cons, h]

/-- A complete library is not shadowed by those behind it. -/
theorem not_shadowed_cons_some {env : LinkEnv} {lib path : Bytes} {paths : List Bytes} {reg : LibReg}
    (h : (env.disk (env.fileName lib path)).complete? env.nameAt = some reg) :
    ¬ Shadowed env lib (path :: paths) := by
  rintro ⟨before, path', after, hpaths, hbefore, hstop, -⟩
  cases before with
  | nil =>
      obtain ⟨rfl, -⟩ := List.cons.inj hpaths
      rw [complete?_of_stopsAtOpen hstop] at h
      exact nomatch h
  | cons q before =>
      obtain ⟨rfl, -⟩ := List.cons.inj hpaths
      rw [firstComplete_cons_some h] at hbefore
      exact nomatch hbefore

/-- A file that stops the search shadows whatever is complete behind it. -/
theorem shadowed_cons_of_stops {env : LinkEnv} {lib path : Bytes} {paths : List Bytes}
    (h : (env.disk (env.fileName lib path)).StopsAtOpen) :
    Shadowed env lib (path :: paths) ↔ firstComplete env lib paths ≠ none := by
  constructor
  · rintro ⟨before, path', after, hpaths, hbefore, -, hafter⟩
    cases before with
    | nil =>
        obtain ⟨-, rfl⟩ := List.cons.inj hpaths
        exact hafter
    | cons q before =>
        obtain ⟨-, rfl⟩ := List.cons.inj hpaths
        intro hnone
        rw [firstComplete_eq_none_iff] at hnone
        refine hafter (firstComplete_eq_none_iff.mpr fun p hp => hnone p ?_)
        exact List.mem_append_right _ (List.mem_cons_of_mem _ hp)
  · exact fun hafter => ⟨[], path, paths, rfl, rfl, h, hafter⟩

/-- Any other rejected file makes no difference. -/
theorem shadowed_cons_of_next {env : LinkEnv} {lib path : Bytes} {paths : List Bytes}
    (hcomplete : (env.disk (env.fileName lib path)).complete? env.nameAt = none)
    (hstop : ¬ (env.disk (env.fileName lib path)).StopsAtOpen) :
    Shadowed env lib (path :: paths) ↔ Shadowed env lib paths := by
  constructor
  · rintro ⟨before, path', after, hpaths, hbefore, hstops, hafter⟩
    cases before with
    | nil =>
        obtain ⟨rfl, -⟩ := List.cons.inj hpaths
        exact absurd hstops hstop
    | cons q before =>
        obtain ⟨rfl, rfl⟩ := List.cons.inj hpaths
        rw [firstComplete_cons_none hcomplete] at hbefore
        exact ⟨before, path', after, rfl, hbefore, hstops, hafter⟩
  · rintro ⟨before, path', after, rfl, hbefore, hstops, hafter⟩
    exact ⟨path :: before, path', after, rfl, (firstComplete_cons_none hcomplete).trans hbefore, hstops,
      hafter⟩

/-- **LOAD_LIB SEARCHES THE WHOLE PATH**, just if no library without
`petrel_lib_open` stands in front of the complete ones. -/
theorem load_lib_exact_iff (env : LinkEnv) (lib : Bytes) (paths : List Bytes) {s : LinkState}
    (hs : s.Settled) : LoadsFirst env lib paths s ↔ ¬ Shadowed env lib paths := by
  induction paths generalizing s with
  | nil =>
      refine iff_of_true ⟨s, rfl, rfl, rfl⟩ ?_
      rintro ⟨before, path, after, hnil, -⟩
      exact absurd hnil.symm (List.append_ne_nil_of_right_ne_nil _ (List.cons_ne_nil _ _))
  | cons path paths ih =>
      cases hcomplete : (env.disk (env.fileName lib path)).complete? env.nameAt with
      | some reg =>
          obtain ⟨s', hrun, hlibs, hopened, -⟩ := loadCandidate_complete hcomplete hs
          refine iff_of_true ⟨s', ?_, ?_⟩ (not_shadowed_cons_some hcomplete)
          · unfold loadLib
            rw [Code.bind_apply, hrun]
            rfl
          · rw [firstComplete_cons_some hcomplete]
            exact ⟨hlibs, _, hopened⟩
      | none =>
          obtain ⟨exit, s', hrun, hexit, hlibs, hopened, hs'⟩ := loadCandidate_rejected hcomplete hs
          unfold LoadsFirst loadLib
          rw [Code.bind_apply, hrun, firstComplete_cons_none hcomplete]
          cases exit with
          | leave =>
              -- nothing behind this file is tried
              rw [shadowed_cons_of_stops (hexit.mp rfl), not_not]
              constructor
              · rintro ⟨t, ht, hfirst⟩
                obtain rfl := (Outcome.returned.inj ht).2
                cases hrest : firstComplete env lib paths with
                | none => rfl
                | some reg =>
                    rw [hrest] at hfirst
                    rw [hlibs] at hfirst
                    exact absurd hfirst.1 (by simp)
              · intro hrest
                rw [hrest]
                exact ⟨s', rfl, hlibs, hopened⟩
          | next =>
              have hstop : ¬ (env.disk (env.fileName lib path)).StopsAtOpen := fun h =>
                nomatch hexit.mpr h
              rw [shadowed_cons_of_next hcomplete hstop, ← ih hs']
              unfold LoadsFirst
              rw [hlibs, hopened]
              rfl

/-- A library with these symbols. -/
def withSymbols (names : List Bytes) : Candidate :=
  .shared (fun name => if name ∈ names then some 1 else none)

/-- The five symbols. -/
def libSymbols : List Bytes :=
  [bytes "petrel_lib_name", bytes "petrel_lib_open", bytes "petrel_lib_init", bytes "petrel_lib_load",
    bytes "petrel_lib_unload"]

/-- A complete library in `/b`, and some file in `/a`. -/
def twoCopies (first : Candidate) : LinkEnv where
  disk := fun file =>
    if file = bytes "/a/libx.so" then first
    else if file = bytes "/b/libx.so" then withSymbols libSymbols
    else .absent
  nameAt := fun _ => bytes "x"

theorem settled_init : LinkState.Settled {} := ⟨rfl, fun _ h => nomatch h⟩

/-- A file that cannot be opened in front of a complete library. -/
theorem load_lib_exact_iff_refused :
    LoadsFirst (twoCopies .refused) (bytes "x") [bytes "/a", bytes "/b"] {} := by
  refine (load_lib_exact_iff _ _ _ settled_init).mpr ?_
  have hfile : (twoCopies .refused).disk ((twoCopies .refused).fileName (bytes "x") (bytes "/a")) =
      .refused := rfl
  have hcomplete : ((twoCopies .refused).disk
      ((twoCopies .refused).fileName (bytes "x") (bytes "/b"))).complete? (twoCopies .refused).nameAt =
        some ⟨bytes "x", 1, 1, 1⟩ := by decide
  rw [shadowed_cons_of_next (by rw [hfile]; rfl) (by rw [hfile]; exact id)]
  exact not_shadowed_cons_some hcomplete

/-- **A copy without `petrel_lib_open` shadows the complete library**: nothing is
registered. -/
theorem broken_copy_shadows :
    let env := twoCopies (withSymbols [bytes "petrel_lib_name"])
    (∃ s', loadLib env (bytes "x") [bytes "/a", bytes "/b"] {} = .returned () s' ∧ s'.libs = []) ∧
      firstComplete env (bytes "x") [bytes "/a", bytes "/b"] = some ⟨bytes "x", 1, 1, 1⟩ ∧
      ¬ LoadsFirst env (bytes "x") [bytes "/a", bytes "/b"] {} := by
  intro env
  have hrun : ∃ s', loadLib env (bytes "x") [bytes "/a", bytes "/b"] {} = .returned () s' ∧
      s'.libs = [] := ⟨_, rfl, rfl⟩
  have hfirst : firstComplete env (bytes "x") [bytes "/a", bytes "/b"] =
      some ⟨bytes "x", 1, 1, 1⟩ := by decide
  refine ⟨hrun, hfirst, ?_⟩
  rintro ⟨t, ht, hlibs⟩
  obtain ⟨s', hret, hnone⟩ := hrun
  rw [hret] at ht
  obtain rfl := (Outcome.returned.inj ht).2
  rw [hfirst, hnone] at hlibs
  exact nomatch hlibs.1

end Petrel
