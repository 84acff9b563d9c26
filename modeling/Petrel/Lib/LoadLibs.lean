/-
  Petrel.Lib.LoadLibs — the libraries in a Lua state.

  `load_libs` opens every registered library in a new state.  A library is a
  table of its static functions under its name in the registry and in the
  globals, which is its own metatable for objects; calling it calls `lib_new`.
  The registry has one name space for the modules that have been loaded and for
  metatables, so a second library of a name takes over the table of the first.

  A library may have a `state_init` function, which `lib_init` calls at its end,
  and the class has a constructor.  Both are code of the library: here they are
  found at an address like all C functions, and what the results need of a
  `state_init` is a hypothesis, `LibDecl.Tame`.

  Main results:
    * `libOpen_put`, `libInit_put`, `luaRequiref_put` — what one library does.
    * `Opened.step`      — one more library is opened, and nothing else changes.
    * `Opened.extends`   — a `state_init` function leaves the libraries alone.
    * `load_libs_opens`  — when `load_libs` returns, and the state it leaves.
-/

import Petrel.Lib.Library
import Petrel.Lib.LoadLib
import Petrel.Lua.Metatables

namespace Petrel

open Framework

/-! ## §1. Libraries. -/

/-- A library as its file declares it.  Names that begin with two underscores
are reserved, so no function has one. -/
structure LibDecl extends LibClass where
  functions : List (Bytes × Nat)     -- `library_functions`
  new : Nat                          -- `lib_new`
  openFunc : Nat
  initFunc : Nat
  unloadFunc : Nat := 0
  stateInit : Option Nat := none     -- `lib_state_init`
  ctor : Nat                         -- the class's own part of `NAME(ctx)`
  reserved : ∀ f ∈ functions ++ methods, ¬ bytes "__" <+: f.1

/-- What is registered of a library. -/
def LibDecl.reg (d : LibDecl) : LibReg := ⟨d.name, d.openFunc, d.initFunc, d.unloadFunc⟩

section Libs

variable {Num : Type} [DecidableEq Num] [LuaNumber Num] (C : CFunctions Num)

/-- Each function becomes a field of the table at an index. -/
def addFields (tab : Nat) : List (Bytes × Nat) → VmCode Num Unit
  | [] => pure ()
  | f :: fs => do
      onL (LuaState.push (.function f.2))
      luaSetFieldAt C tab f.1
      addFields tab fs

/-- `lib_open`: without static functions, what it returns is its argument. -/
def libOpen (d : LibDecl) : VmCode Num Nat := do
  if 0 < d.functions.length then do
    onL LuaState.newTable
    let newtab ← luaGetTop
    addFields C newtab d.functions
    pure 1
  else pure 1

/-- `lib_state_init(L)`, where it is set.  It has no result. -/
def libStateInit (d : LibDecl) : VmCode Num Unit := do
  match d.stateInit with
  | some hook => do
      let _ ← C hook
      pure ()
  | none => pure ()

/-- `lib_init` -/
def libInit (d : LibDecl) : VmCode Num Nat := do
  let funcs ← luaGetTop
  luaLNewMetatable C d.name
  let metatab ← luaGetTop
  luaPushValue funcs
  luaSetFieldAt C metatab (bytes "__index")
  luaPushValue funcs
  luaSetFieldAt C metatab (bytes "__metatable")
  onL LuaState.newTable
  let mt ← luaGetTop
  onL (LuaState.push (.function d.new))
  luaSetFieldAt C mt (bytes "__call")
  luaSetMetatable funcs
  onL (LuaState.pop 1)
  libStateInit C d
  pure 0

/-- `lua_rawseti` of the pointer to the object, at index 1 of a table. -/
def luaRawSetThis (i : Nat) : VmCode Num Unit :=
  onL fun L => match L.peekAbs i with
    | .table t => { L.pop 1 with heap := L.heap.rawSet t thisKey (L.peek 1) }
    | _ => L

/-- `library(ctx)`: the reference to the `io_service` is that of the context. -/
def libraryNew : VmCode Num Unit := do
  let s ← Code.get
  if s.ioService = none then Code.die .nullDereference else pure ()

/-- `lib_new` -/
def libNew (d : LibDecl) : VmCode Num Nat := do
  let s ← Code.get
  luaGetFieldOf C (.table s.L.globals) (bytes "petrel_context")
  let s ← Code.get
  -- any other value gives a null pointer, or one that is not to a context
  if s.L.peek 1 ≠ .userdata s.ctx then Code.die .nullDereference
  else do
    onL (LuaState.pop 1)
    -- `new NAME(ctx)`
    libraryNew
    let _ ← C d.ctor
    Code.modify (fun s => { s with
      objects := s.objects ++ [s.nextObject]
      nextObject := s.nextObject + 1 })
    onL (LuaState.push (.lightuserdata s.nextObject))
    let userdata ← luaGetTop
    luaLGetMetatable C d.name
    luaSetMetatable userdata
    onL LuaState.newTable
    let newtab ← luaGetTop
    luaPushValue userdata
    luaRawSetThis newtab
    luaLGetMetatable C d.name
    luaSetMetatable newtab
    addFields C newtab d.methods
    luaRemove 1
    luaRemove 1
    pure 1

/-- Open the module with the registry and its entry of it on top of the stack, if it
has not been loaded. -/
def openModule (modname : Bytes) (openf : Nat) : VmCode Num Unit := do
  let s ← Code.get
  if (s.L.peek 1).toBoolean = false then do
    onL (LuaState.pop 1)
    onL (LuaState.push (.function openf))
    onL (LuaState.push (.string modname))
    luaCall C 1
    onL (fun L => L.push (L.peek 1))
    let s ← Code.get
    luaSetFieldOf C (s.L.peek 3) modname
  else pure ()

/-- `lua_utils::lua_requiref` with `glb` set. -/
def luaRequiref (modname : Bytes) (openf : Nat) : VmCode Num Unit := do
  let s ← Code.get
  onL (LuaState.push (.table s.registry))
  luaGetFieldOf C (.table s.registry) modname
  openModule C modname openf
  onL (fun L => { L with stack := L.stack.eraseIdx 1 })
  onL (fun L => L.push (L.peek 1))
  let s ← Code.get
  luaSetFieldOf C (.table s.L.globals) modname

/-- The body of the loops of `load_libs`. -/
def openLib (lib : LibReg) : VmCode Num Unit := do
  luaRequiref C lib.name lib.openFunc
  let _ ← C lib.initFunc
  pure ()

def openLibs : List LibReg → VmCode Num Unit
  | [] => pure ()
  | lib :: libs => do
      openLib C lib
      openLibs libs

/-- `lua_state_manager::load_libs` -/
def loadLibs (builtin libs : List LibReg) : VmCode Num Unit := do
  openLibs C builtin
  openLibs C libs

end Libs

/-! ## §2. What the calls do. -/

section Calls

variable {Num : Type} [DecidableEq Num] {C : CFunctions Num}
  {s : LuaVM Num} {w : List (LuaValue Num)} {h : LuaHeap Num}

/-- Functions as fields of a table. -/
def withFunctions (ps : LuaPairs Num) (fs : List (Bytes × Nat)) : LuaPairs Num :=
  fs.foldl (fun ps f => ps.set (.string f.1) (.function f.2)) ps

/-- The heap with other pairs in a table. -/
def LuaHeap.setPairs (h : LuaHeap Num) (t : TableRef) (ps : LuaPairs Num) : LuaHeap Num :=
  { h with pairs := Function.update h.pairs t ps }

omit [DecidableEq Num] in
theorem LuaHeap.alloc_setPairs (h : LuaHeap Num) (ps qs : LuaPairs Num) :
    (h.alloc ps).setPairs h.next qs = h.alloc qs := by
  unfold LuaHeap.alloc LuaHeap.setPairs
  simp only [Function.update_idem]

theorem addFields_put {t : TableRef} (hp : s.Lacks h (bytes "__newindex") t)
    (above : List (LuaValue Num)) (fs : List (Bytes × Nat)) :
    addFields C (w.length + 1) fs (s.put (above ++ .table t :: w) h) =
      .returned () (s.put (above ++ .table t :: w) (h.setPairs t (withFunctions (h.pairs t) fs))) := by
  induction fs generalizing h with
  | nil =>
      show Outcome.returned () _ = Outcome.returned () _
      rw [show h.setPairs t (withFunctions (h.pairs t) []) = h from
        congrArg (fun ps => { h with pairs := ps }) (Function.update_eq_self t h.pairs)]
  | cons f fs ih =>
      have hset : (h.rawSet t (.string f.1) (.function f.2)).setPairs t
          (withFunctions ((h.rawSet t (.string f.1) (.function f.2)).pairs t) fs) =
          h.setPairs t (withFunctions (h.pairs t) (f :: fs)) := by
        rw [LuaHeap.rawSet_pairs]
        unfold LuaHeap.setPairs LuaHeap.rawSet
        simp only [Function.update_idem]
        rfl
      unfold addFields
      rw [Code.bind_apply, push_put, Outcome.andThen_returned, Code.bind_apply,
        luaSetFieldAt_put hp, Outcome.andThen_returned, ih (hp.rawSet _ _), hset]

/-- A library with static functions opens as a new table of them. -/
theorem libOpen_put {d : LibDecl} (hd : d.functions ≠ []) (hfresh : s.metatable (.table h.next) = none) :
    libOpen C d (s.put w h) =
      .returned 1 (s.put (.table h.next :: w) (h.alloc (withFunctions [] d.functions))) := by
  have hadd := addFields_put (C := C) (w := w) (h := h.alloc []) (lacks_of_none hfresh) [] d.functions
  rw [LuaHeap.alloc_pairs] at hadd
  rw [LuaHeap.alloc_setPairs] at hadd
  unfold libOpen
  rw [if_pos (List.length_pos_iff.mpr hd)]
  rw [Code.bind_apply, newTable_put, Outcome.andThen_returned, Code.bind_apply, luaGetTop_put,
    Outcome.andThen_returned, Code.bind_apply]
  show ((addFields C (w.length + 1) d.functions (s.put ([] ++ .table h.next :: w) (h.alloc []))).andThen
    _) = _
  rw [hadd]
  rfl

/-- A name that is taken in the registry stands for what is there. -/
theorem luaLNewMetatable_put {name : Bytes} {v : LuaValue Num}
    (hp : s.Lacks h (bytes "__index") s.registry)
    (hv : (h.pairs s.registry).get (.string name) = v) (hne : v ≠ .nil) :
    luaLNewMetatable C name (s.put w h) = .returned () (s.put (v :: w) h) := by
  have hindex : luaIndex C maxTagLoop (.table s.registry) (.string name) (s.put w h) =
      .returned v (s.put w h) := by
    rw [← hv]
    exact luaIndex_table 99 hp.metamethod
  unfold luaLNewMetatable
  rw [Code.bind_apply, Code.get_apply, Outcome.andThen_returned, Code.bind_apply]
  show ((luaIndex C maxTagLoop (.table s.registry) (.string name) (s.put w h)).andThen _) = _
  rw [hindex, Outcome.andThen_returned, if_pos hne]
  rfl

/-- What `lib_init` makes of the heap: the table of the class refers to itself,
and a new metatable has the constructor. -/
def LuaHeap.initClass (h : LuaHeap Num) (d : LibDecl) (t : TableRef) : LuaHeap Num :=
  ((h.rawSet t (.string (bytes "__index")) (.table t)).rawSet t (.string (bytes "__metatable"))
    (.table t)).alloc [(.string (bytes "__call"), .function d.new)]

/-- `lib_init` on a library that has opened as a table: what it does before it
calls `lib_state_init`. -/
theorem libInit_put {d : LibDecl} {t : TableRef}
    (hreg : s.Lacks h (bytes "__index") s.registry) (hp : s.Lacks h (bytes "__newindex") t)
    (hfresh : s.metatable (.table h.next) = none)
    (hv : (h.pairs s.registry).get (.string d.name) = .table t) :
    libInit C d (s.put (.table t :: w) h) =
      (libStateInit C d ((s.setMeta (.table t) (some h.next)).put (.table t :: w)
        (h.initClass d t))).andThen (fun _ u => .returned 0 u) := by
  have hnew : luaLNewMetatable C d.name (s.put (.table t :: w) h) = _ :=
    luaLNewMetatable_put hreg hv (by simp)
  -- the class refers to itself
  have hpush : ∀ h', luaPushValue (w.length + 1) (s.put (.table t :: .table t :: w) h') =
      .returned () (s.put (.table t :: .table t :: .table t :: w) h') :=
    fun _ => luaPushValue_put [.table t] (.table t) w
  have hindex := luaSetFieldAt_put (C := C) hp (.table t) [] (.table t :: w) (bytes "__index")
  have hmetatable := luaSetFieldAt_put (C := C) (hp.rawSet (.string (bytes "__index")) (.table t))
    (.table t) [] (.table t :: w) (bytes "__metatable")
  -- its metatable has the constructor
  let h' := (h.rawSet t (.string (bytes "__index")) (.table t)).rawSet t
    (.string (bytes "__metatable")) (.table t)
  have hcall := luaSetFieldAt_put (C := C) (h := h'.alloc [])
    (lacks_of_none (s := s) (t := h.next) hfresh) (.function d.new)
    [] (.table t :: .table t :: w) (bytes "__call")
  rw [show h.next = h'.next from rfl, LuaHeap.alloc_rawSet,
    LuaPairs.set_nil _ (by simp)] at hcall
  have hset := luaSetMetatable_put (s := s) (h := h.initClass d t) h.next [.table t] (.table t) w
  simp only [List.nil_append, List.singleton_append, List.length_cons] at hindex hmetatable hcall hset
  unfold libInit
  simp only [Code.bind_apply, Outcome.andThen_returned, luaGetTop_put, hnew, List.length_cons, hpush,
    hindex, hmetatable, newTable_put, push_put]
  refine (congrArg (Outcome.andThen · _) hcall).trans ?_
  rw [Outcome.andThen_returned, Code.bind_apply]
  show ((luaSetMetatable (w.length + 1)
    (s.put (.table h.next :: .table t :: .table t :: w) (h.initClass d t))).andThen _) = _
  rw [hset]
  rfl

section Requiref

variable {name : Bytes} {openf : Nat} {v : LuaValue Num}

/-- The entry of a module that has been loaded stays. -/
theorem openModule_loaded (htrue : v.toBoolean = true) :
    openModule C name openf (s.put (v :: w) h) = .returned () (s.put (v :: w) h) := by
  unfold openModule
  rw [Code.bind_apply, Code.get_apply, Outcome.andThen_returned]
  rw [if_neg (show ¬ ((s.put (v :: w) h).L.peek 1).toBoolean = false by
    show ¬ v.toBoolean = false
    rw [htrue]
    simp)]
  rfl

/-- What `openf` gives for the name becomes the entry. -/
theorem openModule_opens {frame : List (LuaValue Num)} {h' : LuaHeap Num}
    (hregistry : s.metatable (.table s.registry) = none)
    (hopen : C openf (s.put [.string name] h) = .returned 1 (s.put (v :: frame) h')) :
    openModule C name openf (s.put (.nil :: .table s.registry :: w) h) =
      .returned () (s.put (v :: .table s.registry :: w)
        (h'.rawSet s.registry (.string name) v)) := by
  have hcall : luaCall C 1 (s.put (.string name :: .function openf :: .table s.registry :: w) h) =
      .returned () (s.put (v :: .table s.registry :: w) h') := by
    have hframe := callC_put (w := .table s.registry :: w) hopen
    refine (congrArg (Outcome.andThen · _) hframe).trans ?_
    rfl
  have hset := luaSetFieldOf_put (C := C) (w := v :: .table s.registry :: w) (x := v)
    (lacks_of_none (h := h') hregistry) name
  unfold openModule
  rw [Code.bind_apply, Code.get_apply, Outcome.andThen_returned,
    if_pos (show ((s.put (.nil :: .table s.registry :: w) h).L.peek 1).toBoolean = false from rfl)]
  simp only [Code.bind_apply, Outcome.andThen_returned, pop_put, push_put, hcall]
  exact hset

/-- The value that `openModule` leaves becomes a global. -/
theorem luaRequiref_put {h' : LuaHeap Num} (hregistry : s.metatable (.table s.registry) = none)
    (hglobals : s.metatable (.table s.L.globals) = none)
    (hopen : openModule C name openf
      (s.put ((h.pairs s.registry).get (.string name) :: .table s.registry :: w) h) =
        .returned () (s.put (v :: .table s.registry :: w) h')) :
    luaRequiref C name openf (s.put w h) =
      .returned () (s.put (v :: w) (h'.rawSet s.L.globals (.string name) v)) := by
  have hget := luaGetFieldOf_put (C := C) (w := .table s.registry :: w)
    (lacks_of_none (h := h) hregistry) name
  have hset := luaSetFieldOf_put (C := C) (w := v :: w) (x := v)
    (lacks_of_none (h := h') hglobals) name
  unfold luaRequiref
  simp only [Code.bind_apply, Code.get_apply, Outcome.andThen_returned, push_put]
  refine (congrArg (Outcome.andThen · _) hget).trans ?_
  rw [Outcome.andThen_returned, Code.bind_apply, hopen]
  exact hset

end Requiref

/-- A string takes no field: nothing protects `lib_init` from the error. -/
theorem libInit_string {d : LibDecl} (hreg : s.Lacks h (bytes "__index") s.registry)
    (hv : (h.pairs s.registry).get (.string d.name) = .string d.name)
    (hstrings : ∀ m, s.metatable .string = some m →
      (h.pairs m).get (.string (bytes "__newindex")) = .nil) :
    ∃ t, libInit C d (s.put (.string d.name :: w) h) = .died .panic t := by
  let u : LuaVM Num := s.put (.string d.name :: .string d.name :: .string d.name :: w) h
  have hnew : luaLNewMetatable C d.name (s.put (.string d.name :: w) h) = _ :=
    luaLNewMetatable_put hreg hv (by simp)
  have hpush := luaPushValue_put (s := s) (h := h) [.string d.name] (.string d.name) w
  have hpeek := peekAbs_put (s := s) (h := h) [.string d.name] (.string d.name) (.string d.name :: w)
  rw [List.singleton_append] at hpush hpeek
  have hmeta : u.metamethod (.string d.name) (bytes "__newindex") = .nil := by
    have hkept : u.metatable .string = s.metatable .string := rfl
    unfold LuaVM.metamethod
    rw [show (LuaValue.string d.name : LuaValue Num).metaOwner = .string from rfl, hkept]
    cases hm : s.metatable .string with
    | none => rfl
    | some m => exact hstrings m hm
  have hset : luaSetFieldAt C (w.length + 1 + 1) (bytes "__index") u = .died .panic u := by
    have hindex : ∀ k x, luaSetIndex C maxTagLoop (.string d.name) k x u = .died .panic u :=
      fun _ _ => luaSetIndex_string 99 hmeta
    unfold luaSetFieldAt luaSetFieldOf
    rw [Code.bind_apply, Code.get_apply, Outcome.andThen_returned,
      show u.L.peekAbs (w.length + 1 + 1) = .string d.name from hpeek, Code.bind_apply, Code.get_apply,
      Outcome.andThen_returned, Code.bind_apply, hindex]
    rfl
  refine ⟨u, ?_⟩
  unfold libInit
  simp only [Code.bind_apply, Outcome.andThen_returned, luaGetTop_put, hnew, List.length_cons, hpush]
  rw [show s.put (.string d.name :: .string d.name :: .string d.name :: w) h = u from rfl, hset]
  rfl

end Calls

/-! ## §3. The classes. -/

section Classes

variable {Num : Type} [DecidableEq Num]

/-- The static functions under a name: those of the first library that has it. -/
def functionsOf (ds : List LibDecl) (name : Bytes) : List (Bytes × Nat) :=
  ((ds.find? (fun d => d.name = name)).map LibDecl.functions).getD []

/-- The last library of a name. -/
def lastNamed (ds : List LibDecl) (name : Bytes) : Option LibDecl :=
  ds.reverse.find? (fun d => d.name = name)

/-- The constructor under a name: that of the last library that has it. -/
def constructorOf (ds : List LibDecl) (name : Bytes) : Nat :=
  ((lastNamed ds name).map LibDecl.new).getD 0

/-- What a key stands for among functions: the last one of this name. -/
def functionNamed (fs : List (Bytes × Nat)) (k : LuaValue Num) : LuaValue Num :=
  match fs.reverse.find? (fun f => k = .string f.1) with
  | some f => .function f.2
  | none => .nil

/-- A field of the class with the table `t` and these functions. -/
def classField (fs : List (Bytes × Nat)) (t : TableRef) (k : LuaValue Num) : LuaValue Num :=
  if k = .string (bytes "__index") ∨ k = .string (bytes "__metatable") then .table t
  else functionNamed fs k

/-- The registry and the globals are two tables without metatables, and a table
that has not been made has none. -/
structure LuaVM.Ordinary (s : LuaVM Num) : Prop where
  apart : s.registry ≠ s.L.globals
  known : s.registry < s.L.heap.next ∧ s.L.globals < s.L.heap.next
  plain : s.metatable (.table s.registry) = none ∧ s.metatable (.table s.L.globals) = none
  fresh : ∀ t, s.L.heap.next ≤ t → s.metatable (.table t) = none

/-- The classes of the libraries `ds`, with their tables. -/
structure Classes (ds : List LibDecl) (T : Bytes → TableRef) (s : LuaVM Num) : Prop extends s.Ordinary where
  distinct : ∀ d ∈ ds, ∀ d' ∈ ds, T d.name = T d'.name → d.name = d'.name
  tables : ∀ d ∈ ds, T d.name < s.L.heap.next ∧ T d.name ≠ s.registry ∧ T d.name ≠ s.L.globals
  entries : ∀ d ∈ ds, (s.L.heap.pairs s.registry).get (.string d.name) = .table (T d.name)
  fields : ∀ d ∈ ds, ∀ k,
    (s.L.heap.pairs (T d.name)).get k = classField (functionsOf ds d.name) (T d.name) k
  metas : ∀ d ∈ ds, ∃ m, s.metatable (.table (T d.name)) = some m ∧ m < s.L.heap.next ∧
    m ≠ s.registry ∧ m ≠ s.L.globals ∧ (∀ d' ∈ ds, T d'.name ≠ m) ∧
    s.L.heap.pairs m = [(.string (bytes "__call"), .function (constructorOf ds d.name))]

/-- A state in which none of the libraries has been loaded. -/
structure LuaVM.Fresh (s : LuaVM Num) (ds : List LibDecl) : Prop extends s.Ordinary where
  unloaded : ∀ d ∈ ds, (s.L.heap.pairs s.registry).get (.string d.name) = .nil
  -- the metatable of the strings has no `__newindex`
  strings : ∀ m, s.metatable .string = some m → m < s.L.heap.next ∧ m ≠ s.registry ∧
    m ≠ s.L.globals ∧ (s.L.heap.pairs m).get (.string (bytes "__newindex")) = .nil

/-- What a `state_init` function leaves: the stack, the registry, the tables and
the metatables that there were are as before, but for the globals of the names
`G`.  It may make tables, and give them metatables. -/
structure LuaVM.Extends (G : LuaValue Num → Prop) (s t : LuaVM Num) : Prop where
  stack : t.L.stack = s.L.stack
  registry : t.registry = s.registry
  globals : t.L.globals = s.L.globals
  grows : s.L.heap.next ≤ t.L.heap.next
  frame : ∀ r, r < s.L.heap.next → r ≠ s.L.globals → t.L.heap.pairs r = s.L.heap.pairs r
  names : ∀ k, ¬ G k → (t.L.heap.pairs t.L.globals).get k = (s.L.heap.pairs s.L.globals).get k
  metas : ∀ o, (∀ r, o = .table r → r < s.L.heap.next) → t.metatable o = s.metatable o
  fresh : ∀ r, t.L.heap.next ≤ r → t.metatable (.table r) = none
  context : t.ctx = s.ctx ∧ t.objects = s.objects ∧ t.nextObject = s.nextObject

/-- The state `s` is `s₀` with the libraries `ds` opened, and nothing else but
the globals `G` of their `state_init` functions and tables that these have
made. -/
structure Opened (G : LuaValue Num → Prop) (s₀ s : LuaVM Num) (ds : List LibDecl)
    (T : Bytes → TableRef) : Prop where
  classes : Classes ds T s
  registry : s.registry = s₀.registry
  globals : s.L.globals = s₀.L.globals
  names : ∀ d ∈ ds, (s.L.heap.pairs s.L.globals).get (.string d.name) = .table (T d.name)
  rest : ∀ k, (∀ d ∈ ds, k ≠ .string d.name) →
    (s.L.heap.pairs s.registry).get k = (s₀.L.heap.pairs s₀.registry).get k ∧
    (¬ G k → (s.L.heap.pairs s.L.globals).get k = (s₀.L.heap.pairs s₀.L.globals).get k)
  grows : s₀.L.heap.next ≤ s.L.heap.next
  new : ∀ d ∈ ds, s₀.L.heap.next ≤ T d.name
  frame : ∀ t, t < s₀.L.heap.next → t ≠ s₀.registry → t ≠ s₀.L.globals →
    s.L.heap.pairs t = s₀.L.heap.pairs t
  metas : ∀ o, (∀ t, o = .table t → t < s₀.L.heap.next) → s.metatable o = s₀.metatable o
  stack : s.L.stack = ds.reverse.map (fun d => .table (T d.name)) ++ s₀.L.stack
  context : s.ctx = s₀.ctx ∧ s.objects = s₀.objects ∧ s.nextObject = s₀.nextObject

theorem withFunctions_get (fs : List (Bytes × Nat)) (ps : LuaPairs Num) (k : LuaValue Num) :
    (withFunctions ps fs).get k =
      if functionNamed fs k = .nil then ps.get k else functionNamed fs k := by
  induction fs generalizing ps with
  | nil => rfl
  | cons f fs ih =>
      show (withFunctions (ps.set (.string f.1) (.function f.2)) fs).get k = _
      rw [ih]
      unfold functionNamed
      rw [List.reverse_cons, List.find?_append]
      cases hfs : fs.reverse.find? (fun f => k = .string f.1) with
      | some g => simp
      | none =>
          by_cases hk : k = .string f.1
          · simp [hk, LuaPairs.get_set_self]
          · simp [hk, LuaPairs.get_set_of_ne]

omit [DecidableEq Num] in
theorem functionsOf_append {ds : List LibDecl} {d' : LibDecl} (hd : d' ∈ ds) (more : List LibDecl) :
    functionsOf (ds ++ more) d'.name = functionsOf ds d'.name := by
  unfold functionsOf
  rw [List.find?_append]
  cases hf : ds.find? (fun d => d.name = d'.name) with
  | none =>
      have hne := List.find?_eq_none.mp hf d' hd
      exact absurd (decide_eq_true rfl) hne
  | some f => rfl

theorem functionsOf_new {ds : List LibDecl} {d : LibDecl} (hd : ∀ d' ∈ ds, d'.name ≠ d.name) :
    functionsOf (ds ++ [d]) d.name = d.functions := by
  unfold functionsOf
  rw [List.find?_append, List.find?_eq_none.mpr (fun d' hd' => by simpa using hd d' hd')]
  simp

theorem constructorOf_append (ds : List LibDecl) (d : LibDecl) (name : Bytes) :
    constructorOf (ds ++ [d]) name = if d.name = name then d.new else constructorOf ds name := by
  unfold constructorOf lastNamed
  rw [List.reverse_append, List.reverse_singleton, List.singleton_append, List.find?_cons]
  by_cases hd : d.name = name
  · simp [hd]
  · simp [hd]

/-! ## §4. One more library. -/

/-- What `lua_requiref` has made of the heap: the library `d` has the table `t`,
under its name in the registry and in the globals. -/
structure Required (s₀ s : LuaVM Num) (ds : List LibDecl) (T : Bytes → TableRef) (d : LibDecl)
    (t : TableRef) (h : LuaHeap Num) : Prop where
  same : ∀ d' ∈ ds, d'.name = d.name → T d'.name = t
  other : ∀ d' ∈ ds, d'.name ≠ d.name → T d'.name ≠ t
  noMeta : ∀ d' ∈ ds, d'.name ≠ d.name → s.metatable (.table (T d'.name)) ≠ some t
  grows : s.L.heap.next ≤ h.next
  table : t < h.next ∧ t ≠ s.registry ∧ t ≠ s.L.globals ∧ s₀.L.heap.next ≤ t
  entry : ∀ k, (h.pairs s.registry).get k =
    if k = .string d.name then .table t else (s.L.heap.pairs s.registry).get k
  global : ∀ k, (h.pairs s.L.globals).get k =
    if k = .string d.name then .table t else (s.L.heap.pairs s.L.globals).get k
  fields : ∀ k, k ≠ .string (bytes "__index") → k ≠ .string (bytes "__metatable") →
    (h.pairs t).get k = functionNamed (functionsOf (ds ++ [d]) d.name) k
  frame : ∀ t', t' < s.L.heap.next → t' ≠ s.registry → t' ≠ s.L.globals → t' ≠ t →
    h.pairs t' = s.L.heap.pairs t'
  lacks : s.Lacks h (bytes "__newindex") t

theorem initClass_pairs (h : LuaHeap Num) (d : LibDecl) {t t' : TableRef} (ht : t' ≠ t)
    (hnext : t' ≠ h.next) : (h.initClass d t).pairs t' = h.pairs t' := by
  unfold LuaHeap.initClass
  rw [LuaHeap.alloc_pairs_of_ne (show t' ≠ ((h.rawSet t _ _).rawSet t _ _).next from hnext),
    LuaHeap.rawSet_pairs_of_ne _ ht, LuaHeap.rawSet_pairs_of_ne _ ht]

theorem initClass_meta (h : LuaHeap Num) (d : LibDecl) (t : TableRef) :
    (h.initClass d t).pairs h.next = [(.string (bytes "__call"), .function d.new)] := by
  unfold LuaHeap.initClass
  exact LuaHeap.alloc_pairs _ _

theorem initClass_get (h : LuaHeap Num) (d : LibDecl) {t : TableRef} (ht : t ≠ h.next)
    (k : LuaValue Num) : ((h.initClass d t).pairs t).get k =
      if k = .string (bytes "__index") ∨ k = .string (bytes "__metatable") then .table t
      else (h.pairs t).get k := by
  have hpairs : (h.initClass d t).pairs t =
      ((h.pairs t).set (.string (bytes "__index")) (.table t)).set (.string (bytes "__metatable"))
        (.table t) := by
    unfold LuaHeap.initClass
    rw [LuaHeap.alloc_pairs_of_ne (show t ≠ ((h.rawSet t _ _).rawSet t _ _).next from ht),
      LuaHeap.rawSet_pairs, LuaHeap.rawSet_pairs]
  rw [hpairs]
  by_cases hm : k = .string (bytes "__metatable")
  · rw [hm, LuaPairs.get_set_self _ _ (by simp), if_pos (.inr rfl)]
  · rw [LuaPairs.get_set_of_ne _ (by simp) hm]
    by_cases hi : k = .string (bytes "__index")
    · rw [hi, LuaPairs.get_set_self _ _ (by simp), if_pos (.inl rfl)]
    · rw [LuaPairs.get_set_of_ne _ (by simp) hi, if_neg (by simp [hm, hi])]

/-- The state with the library `d` opened as `t`. -/
def LuaVM.withClass (s : LuaVM Num) (d : LibDecl) (t : TableRef) (h : LuaHeap Num) : LuaVM Num :=
  (s.setMeta (.table t) (some h.next)).put (.table t :: s.L.stack) (h.initClass d t)

section Step

variable {G : LuaValue Num → Prop} {s₀ s : LuaVM Num} {ds : List LibDecl} {T : Bytes → TableRef}
  {d : LibDecl} {t : TableRef} {h : LuaHeap Num}

theorem withClass_metatable_of_ne {o : MetaOwner} (ho : o ≠ .table t) :
    (s.withClass d t h).metatable o = s.metatable o := Function.update_of_ne ho _ _

theorem withClass_metatable : (s.withClass d t h).metatable (.table t) = some h.next :=
  Function.update_self ..

omit [DecidableEq Num] in
/-- A library is named like `d`, or was there before under another name. -/
theorem mem_concat_cases {d' : LibDecl} (hd' : d' ∈ ds ++ [d]) :
    d'.name = d.name ∨ (d' ∈ ds ∧ d'.name ≠ d.name) := by
  by_cases hname : d'.name = d.name
  · exact .inl hname
  · rcases List.mem_append.mp hd' with hmem | hmem
    · exact .inr ⟨hmem, hname⟩
    · exact absurd (congrArg (fun x : LibDecl => x.name) (List.mem_singleton.mp hmem)) hname

theorem Required.tableOf (hr : Required s₀ s ds T d t h) {d' : LibDecl} (hd' : d' ∈ ds) :
    Function.update T d.name t d'.name = T d'.name := by
  by_cases hname : d'.name = d.name
  · rw [hname, Function.update_self, ← hname, hr.same d' hd' hname]
  · rw [Function.update_of_ne hname]

/-- The registry and the globals stay what they are. -/
theorem Required.ordinary (hr : Required s₀ s ds T d t h) (ho : s.Ordinary) :
    (s.withClass d t h).Ordinary := by
  constructor
  case apart => exact ho.apart
  case known =>
    exact ⟨Nat.lt_succ_of_lt (Nat.lt_of_lt_of_le ho.known.1 hr.grows),
      Nat.lt_succ_of_lt (Nat.lt_of_lt_of_le ho.known.2 hr.grows)⟩
  case plain =>
    constructor
    · rw [← ho.plain.1]
      exact withClass_metatable_of_ne (fun heq => hr.table.2.1 (MetaOwner.table.inj heq).symm)
    · rw [← ho.plain.2]
      exact withClass_metatable_of_ne (fun heq => hr.table.2.2.1 (MetaOwner.table.inj heq).symm)
  case fresh =>
    intro t' ht'
    have hlt : t < t' := Nat.lt_trans hr.table.1 ht'
    rw [withClass_metatable_of_ne (fun heq => Nat.ne_of_gt hlt (MetaOwner.table.inj heq))]
    exact ho.fresh t' (Nat.le_trans hr.grows (Nat.le_of_succ_le ht'))

/-- The classes with one more library. -/
theorem Required.classes (hr : Required s₀ s ds T d t h) (hc : Classes ds T s) :
    Classes (ds ++ [d]) (Function.update T d.name t) (s.withClass d t h) := by
  have htnext : t ≠ h.next := Nat.ne_of_lt hr.table.1
  have hself : Function.update T d.name t d.name = t := Function.update_self ..
  have hpairs : ∀ t', t' < s.L.heap.next → t' ≠ t →
      (h.initClass d t).pairs t' = h.pairs t' := fun t' hlt hne =>
    initClass_pairs h d hne (Nat.ne_of_lt (Nat.lt_of_lt_of_le hlt hr.grows))
  constructor
  case toOrdinary => exact hr.ordinary hc.toOrdinary
  case distinct =>
    intro d₁ hd₁ d₂ hd₂ heq
    rcases mem_concat_cases hd₁ with h₁ | ⟨hmem₁, h₁⟩
    · rcases mem_concat_cases hd₂ with h₂ | ⟨hmem₂, h₂⟩
      · exact h₁.trans h₂.symm
      · rw [h₁, hself, hr.tableOf hmem₂] at heq
        exact absurd heq.symm (hr.other d₂ hmem₂ h₂)
    · rcases mem_concat_cases hd₂ with h₂ | ⟨hmem₂, h₂⟩
      · rw [h₂, hself, hr.tableOf hmem₁] at heq
        exact absurd heq (hr.other d₁ hmem₁ h₁)
      · rw [hr.tableOf hmem₁, hr.tableOf hmem₂] at heq
        exact hc.distinct d₁ hmem₁ d₂ hmem₂ heq
  case tables =>
    intro d' hd'
    rcases mem_concat_cases hd' with hname | ⟨hmem, hname⟩
    · rw [hname, hself]
      exact ⟨Nat.lt_succ_of_lt hr.table.1, hr.table.2.1, hr.table.2.2.1⟩
    · rw [hr.tableOf hmem]
      obtain ⟨hlt, hreg, hglob⟩ := hc.tables d' hmem
      exact ⟨Nat.lt_succ_of_lt (Nat.lt_of_lt_of_le hlt hr.grows), hreg, hglob⟩
  case entries =>
    intro d' hd'
    show ((h.initClass d t).pairs s.registry).get _ = _
    rw [hpairs _ hc.known.1 hr.table.2.1.symm, hr.entry]
    rcases mem_concat_cases hd' with hname | ⟨hmem, hname⟩
    · rw [hname, hself, if_pos rfl]
    · rw [hr.tableOf hmem, if_neg (by simpa using hname)]
      exact hc.entries d' hmem
  case fields =>
    intro d' hd' k
    show ((h.initClass d t).pairs _).get k = _
    rcases mem_concat_cases hd' with hname | ⟨hmem, hname⟩
    · rw [hname, hself, initClass_get h d htnext]
      unfold classField
      by_cases hk : k = .string (bytes "__index") ∨ k = .string (bytes "__metatable")
      · rw [if_pos hk, if_pos hk]
      · rw [if_neg hk, if_neg hk]
        exact hr.fields k (fun hi => hk (.inl hi)) (fun hm => hk (.inr hm))
    · obtain ⟨hlt, hreg, hglob⟩ := hc.tables d' hmem
      have hne := hr.other d' hmem hname
      rw [hr.tableOf hmem, hpairs _ hlt hne, hr.frame _ hlt hreg hglob hne, functionsOf_append hmem]
      exact hc.fields d' hmem k
  case metas =>
    intro d' hd'
    rcases mem_concat_cases hd' with hname | ⟨hmem, hname⟩
    · rw [hname, hself, constructorOf_append, if_pos rfl]
      refine ⟨h.next, withClass_metatable, Nat.lt_succ_self _,
        Nat.ne_of_gt (Nat.lt_of_lt_of_le hc.known.1 hr.grows),
        Nat.ne_of_gt (Nat.lt_of_lt_of_le hc.known.2 hr.grows), ?_, initClass_meta h d t⟩
      intro d₂ hd₂
      rcases mem_concat_cases hd₂ with h₂ | ⟨hmem₂, h₂⟩
      · rw [h₂, hself]
        exact htnext
      · rw [hr.tableOf hmem₂]
        exact Nat.ne_of_lt (Nat.lt_of_lt_of_le (hc.tables d₂ hmem₂).1 hr.grows)
    · obtain ⟨m, hm, hlt, hreg, hglob, hnot, hpairsm⟩ := hc.metas d' hmem
      have hne : m ≠ t := fun heq => hr.noMeta d' hmem hname (heq ▸ hm)
      rw [hr.tableOf hmem, constructorOf_append, if_neg (Ne.symm hname)]
      refine ⟨m, ?_, Nat.lt_succ_of_lt (Nat.lt_of_lt_of_le hlt hr.grows), hreg, hglob, ?_, ?_⟩
      · rw [withClass_metatable_of_ne (fun heq => hr.other d' hmem hname (MetaOwner.table.inj heq))]
        exact hm
      · intro d₂ hd₂
        rcases mem_concat_cases hd₂ with h₂ | ⟨hmem₂, h₂⟩
        · rw [h₂, hself]
          exact hne.symm
        · rw [hr.tableOf hmem₂]
          exact hnot d₂ hmem₂
      · show (h.initClass d t).pairs m = _
        rw [hpairs _ hlt hne, hr.frame _ hlt hreg hglob hne]
        exact hpairsm

/-- **One more library is opened**, and nothing else changes. -/
theorem Opened.step (ho : Opened G s₀ s ds T) (hr : Required s₀ s ds T d t h) :
    Opened G s₀ (s.withClass d t h) (ds ++ [d]) (Function.update T d.name t) := by
  have hself : Function.update T d.name t d.name = t := Function.update_self ..
  have hregistry : (h.initClass d t).pairs s.registry = h.pairs s.registry :=
    initClass_pairs h d hr.table.2.1.symm
      (Nat.ne_of_lt (Nat.lt_of_lt_of_le ho.classes.known.1 hr.grows))
  have hglobals : (h.initClass d t).pairs s.L.globals = h.pairs s.L.globals :=
    initClass_pairs h d hr.table.2.2.1.symm
      (Nat.ne_of_lt (Nat.lt_of_lt_of_le ho.classes.known.2 hr.grows))
  refine ⟨hr.classes ho.classes, ho.registry, ho.globals, ?names, ?rest,
    Nat.le_succ_of_le (Nat.le_trans ho.grows hr.grows), ?new, ?frame, ?metas, ?stack,
    ho.context⟩
  case names =>
    intro d' hd'
    show ((h.initClass d t).pairs s.L.globals).get _ = _
    rw [hglobals, hr.global]
    rcases mem_concat_cases hd' with hname | ⟨hmem, hname⟩
    · rw [hname, hself, if_pos rfl]
    · rw [hr.tableOf hmem, if_neg (by simpa using hname)]
      exact ho.names d' hmem
  case rest =>
    intro k hk
    obtain ⟨hreg, hglob⟩ := ho.rest k (fun d' hd' => hk d' (List.mem_append_left _ hd'))
    have hne : k ≠ .string d.name := hk d (List.mem_append_right _ (List.mem_singleton_self d))
    constructor
    · show ((h.initClass d t).pairs s.registry).get k = _
      rw [hregistry, hr.entry, if_neg hne, hreg]
    · intro hG
      show ((h.initClass d t).pairs s.L.globals).get k = _
      rw [hglobals, hr.global, if_neg hne, hglob hG]
  case new =>
    intro d' hd'
    rcases mem_concat_cases hd' with hname | ⟨hmem, hname⟩
    · rw [hname, hself]
      exact hr.table.2.2.2
    · rw [hr.tableOf hmem]
      exact ho.new d' hmem
  case frame =>
    intro t' ht' hreg hglob
    have hlt := Nat.lt_of_lt_of_le ht' ho.grows
    have hne : t' ≠ t := Nat.ne_of_lt (Nat.lt_of_lt_of_le ht' hr.table.2.2.2)
    show (h.initClass d t).pairs t' = _
    rw [initClass_pairs h d hne (Nat.ne_of_lt (Nat.lt_of_lt_of_le hlt hr.grows)),
      hr.frame t' hlt (fun heq => hreg (heq.trans ho.registry))
        (fun heq => hglob (heq.trans ho.globals)) hne]
    exact ho.frame t' ht' hreg hglob
  case metas =>
    intro o hold
    -- the table of the library is new
    have hne : o ≠ .table t := fun heq => absurd (hold t heq) (Nat.not_lt.mpr hr.table.2.2.2)
    rw [withClass_metatable_of_ne hne]
    exact ho.metas o hold
  case stack =>
    show LuaValue.table t :: s.L.stack = _
    rw [ho.stack, List.reverse_append, List.reverse_singleton, List.singleton_append, List.map_cons,
      hself, List.cons_append]
    congr 2
    refine List.map_congr_left (fun d' hd' => ?_)
    rw [hr.tableOf (List.mem_reverse.mp hd')]

/-- A `state_init` function leaves the classes as they are. -/
theorem Classes.extends {u : LuaVM Num} (hc : Classes ds T s) (he : s.Extends G u) : Classes ds T u := by
  have hpairs : ∀ r, r < s.L.heap.next → r ≠ s.L.globals → u.L.heap.pairs r = s.L.heap.pairs r := he.frame
  have hmeta : ∀ r, r < s.L.heap.next → u.metatable (.table r) = s.metatable (.table r) := by
    intro r hr
    refine he.metas _ ?_
    rintro r' heq
    exact MetaOwner.table.inj heq ▸ hr
  constructor
  case toOrdinary =>
    refine ⟨?_, ⟨?_, ?_⟩, ⟨?_, ?_⟩, he.fresh⟩
    · rw [he.registry, he.globals]
      exact hc.apart
    · rw [he.registry]
      exact Nat.lt_of_lt_of_le hc.known.1 he.grows
    · rw [he.globals]
      exact Nat.lt_of_lt_of_le hc.known.2 he.grows
    · rw [he.registry, hmeta _ hc.known.1]
      exact hc.plain.1
    · rw [he.globals, hmeta _ hc.known.2]
      exact hc.plain.2
  case distinct => exact hc.distinct
  case tables =>
    intro d' hd'
    obtain ⟨hlt, hreg, hglob⟩ := hc.tables d' hd'
    rw [he.registry, he.globals]
    exact ⟨Nat.lt_of_lt_of_le hlt he.grows, hreg, hglob⟩
  case entries =>
    intro d' hd'
    rw [he.registry, hpairs _ hc.known.1 hc.apart]
    exact hc.entries d' hd'
  case fields =>
    intro d' hd' k
    obtain ⟨hlt, -, hglob⟩ := hc.tables d' hd'
    rw [hpairs _ hlt hglob]
    exact hc.fields d' hd' k
  case metas =>
    intro d' hd'
    obtain ⟨m, hm, hlt, hreg, hglob, hnot, hpairsm⟩ := hc.metas d' hd'
    rw [he.registry, he.globals]
    refine ⟨m, ?_, Nat.lt_of_lt_of_le hlt he.grows, hreg, hglob, hnot, ?_⟩
    · rw [hmeta _ (hc.tables d' hd').1]
      exact hm
    · rw [hpairs _ hlt hglob]
      exact hpairsm

/-- **A `state_init` function leaves the libraries alone**, where its globals
have other names. -/
theorem Opened.extends {u : LuaVM Num} (ho : Opened G s₀ s ds T) (he : s.Extends G u)
    (hG : ∀ d ∈ ds, ¬ G (.string d.name)) : Opened G s₀ u ds T := by
  refine ⟨ho.classes.extends he, he.registry.trans ho.registry, he.globals.trans ho.globals, ?names, ?rest,
    Nat.le_trans ho.grows he.grows, ho.new, ?frame, ?metas, he.stack.trans ho.stack, ?context⟩
  case names =>
    intro d' hd'
    rw [he.names _ (hG d' hd')]
    exact ho.names d' hd'
  case rest =>
    intro k hk
    obtain ⟨hreg, hglob⟩ := ho.rest k hk
    constructor
    · rw [he.registry, he.frame _ ho.classes.known.1 ho.classes.apart]
      exact hreg
    · intro hGk
      rw [he.names k hGk]
      exact hglob hGk
  case frame =>
    intro t' ht' hreg hglob
    rw [he.frame t' (Nat.lt_of_lt_of_le ht' ho.grows) (fun heq => hglob (heq.trans ho.globals))]
    exact ho.frame t' ht' hreg hglob
  case metas =>
    intro o hold
    rw [he.metas o (fun r heq => Nat.lt_of_lt_of_le (hold r heq) ho.grows)]
    exact ho.metas o hold
  case context =>
    obtain ⟨hctx, hobjects, hnext⟩ := ho.context
    exact ⟨he.context.1.trans hctx, he.context.2.1.trans hobjects, he.context.2.2.trans hnext⟩

end Step

/-! ## §5. A run of `load_libs`. -/

section Run

variable {P : Program Num} {n : Nat} {C : CFunctions Num} {G : LuaValue Num → Prop} {s₀ s : LuaVM Num}
  {ds : List LibDecl} {T : Bytes → TableRef} {d : LibDecl}

/-- The functions of a library are found at their addresses. -/
structure LibDecl.Linked [LuaNumber Num] (P : Program Num) (d : LibDecl) : Prop where
  opens : ∀ C, P d.openFunc C = libOpen C d
  inits : ∀ C, P d.initFunc C = libInit C d
  constructs : ∀ C, P d.new C = libNew C d

/-- The `state_init` function of a library, if it has one, returns, and sets no
globals but those of the names `G`.  That of the example library is empty. -/
def LibDecl.Tame (C : CFunctions Num) (G : LuaValue Num → Prop) (d : LibDecl) : Prop :=
  ∀ hook ∈ d.stateInit, ∀ s : LuaVM Num, s.Ordinary → ∃ k t, C hook s = .returned k t ∧ s.Extends G t

theorem opened_nil {libs : List LibDecl} (hs : s.Fresh libs) : Opened G s s [] T := by
  have hc : Classes [] T s := ⟨hs.toOrdinary, by simp, by simp, by simp, by simp, by simp⟩
  exact ⟨hc, rfl, rfl, by simp, fun _ _ => ⟨rfl, fun _ => rfl⟩, Nat.le_refl _, by simp, fun _ _ _ _ => rfl,
    fun _ _ => rfl, rfl, rfl, rfl, rfl⟩

/-- A library whose name has been taken. -/
theorem Opened.required_again (ho : Opened G s₀ s ds T) {d' : LibDecl} (hd' : d' ∈ ds)
    (hname : d'.name = d.name) :
    Required s₀ s ds T d (T d.name)
      (s.L.heap.rawSet s.L.globals (.string d.name) (.table (T d.name))) := by
  obtain ⟨hlt, hreg, hglob⟩ := hname ▸ ho.classes.tables d' hd'
  constructor
  case same => exact fun d₂ _ h₂ => congrArg T h₂
  case other =>
    intro d₂ hd₂ h₂ heq
    exact h₂ ((ho.classes.distinct d₂ hd₂ d' hd' (heq.trans (congrArg T hname.symm))).trans hname)
  case noMeta =>
    intro d₂ hd₂ _ hmeta
    obtain ⟨m, hm, -, -, -, hnot, -⟩ := ho.classes.metas d₂ hd₂
    exact hnot d' hd' ((congrArg T hname).trans (Option.some.inj (hmeta.symm.trans hm)))
  case grows => exact Nat.le_refl _
  case table => exact ⟨hlt, hreg, hglob, hname ▸ ho.new d' hd'⟩
  case entry =>
    intro k
    rw [LuaHeap.rawSet_pairs_of_ne _ ho.classes.apart]
    by_cases hk : k = .string d.name
    · rw [if_pos hk, hk, ← hname]
      exact ho.classes.entries d' hd'
    · rw [if_neg hk]
  case global => exact fun k => LuaHeap.get_rawSet _ _ _ (by simp) k
  case fields =>
    intro k hi hm
    rw [LuaHeap.rawSet_pairs_of_ne _ hglob, ← hname, ho.classes.fields d' hd' k,
      functionsOf_append hd']
    exact if_neg (by simp [hi, hm])
  case frame => exact fun t' _ _ hg _ => LuaHeap.rawSet_pairs_of_ne _ hg _ _
  case lacks =>
    intro m hm
    obtain ⟨m', hm', -, -, hne, hnot, hpairs⟩ := ho.classes.metas d' hd'
    rw [← hname, hm'] at hm
    obtain rfl := Option.some.inj hm
    rw [LuaHeap.rawSet_pairs_of_ne _ hne, hpairs, ← hname]
    exact ⟨(hnot d' hd').symm, rfl⟩

/-- The registry has nothing under a new name. -/
theorem Opened.entry_new {libs : List LibDecl} (ho : Opened G s₀ s ds T) (hs : s₀.Fresh libs)
    (hd : d ∈ libs) (hnew : ∀ d' ∈ ds, d'.name ≠ d.name) :
    (s.L.heap.pairs s.registry).get (.string d.name) = .nil := by
  rw [(ho.rest (.string d.name) (fun d' hd' => by simpa using (hnew d' hd').symm)).1]
  exact hs.unloaded d hd

/-- A library with a new name. -/
theorem Opened.required_new (ho : Opened G s₀ s ds T) (hnew : ∀ d' ∈ ds, d'.name ≠ d.name) :
    Required s₀ s ds T d s.L.heap.next
      (((s.L.heap.alloc (withFunctions [] d.functions)).rawSet s.registry (.string d.name)
        (.table s.L.heap.next)).rawSet s.L.globals (.string d.name) (.table s.L.heap.next)) := by
  obtain ⟨hreg, hglob⟩ := ho.classes.known
  have hframe : ∀ t', t' < s.L.heap.next → (s.L.heap.alloc (withFunctions [] d.functions)).pairs t' =
      s.L.heap.pairs t' := fun t' ht' => LuaHeap.alloc_pairs_of_ne (Nat.ne_of_lt ht') _
  constructor
  case same => exact fun d₂ hd₂ h₂ => absurd h₂ (hnew d₂ hd₂)
  case other => exact fun d₂ hd₂ _ => Nat.ne_of_lt (ho.classes.tables d₂ hd₂).1
  case noMeta =>
    intro d₂ hd₂ _ hmeta
    obtain ⟨m, hm, hlt, -⟩ := ho.classes.metas d₂ hd₂
    exact Nat.ne_of_lt hlt (Option.some.inj (hm.symm.trans hmeta))
  case grows => exact Nat.le_succ _
  case table => exact ⟨Nat.lt_succ_self _, Nat.ne_of_gt hreg, Nat.ne_of_gt hglob, ho.grows⟩
  case entry =>
    intro k
    rw [LuaHeap.rawSet_pairs_of_ne _ ho.classes.apart, LuaHeap.get_rawSet _ _ _ (by simp), hframe _ hreg]
  case global =>
    intro k
    rw [LuaHeap.get_rawSet _ _ _ (by simp), LuaHeap.rawSet_pairs_of_ne _ ho.classes.apart.symm,
      hframe _ hglob]
  case fields =>
    intro k _ _
    rw [LuaHeap.rawSet_pairs_of_ne _ (Nat.ne_of_gt hglob), LuaHeap.rawSet_pairs_of_ne _ (Nat.ne_of_gt hreg),
      LuaHeap.alloc_pairs, functionsOf_new hnew, withFunctions_get]
    by_cases hk : functionNamed d.functions k = .nil
    · rw [if_pos hk, hk]
      rfl
    · rw [if_neg hk]
  case frame =>
    intro t' ht' hr hg _
    rw [LuaHeap.rawSet_pairs_of_ne _ hg, LuaHeap.rawSet_pairs_of_ne _ hr, hframe t' ht']
  case lacks => exact lacks_of_none (ho.classes.fresh _ (Nat.le_refl _))

variable [LuaNumber Num]

/-- What `lua_requiref` leaves is initialized. -/
theorem openLib_of_required {t : TableRef} {h : LuaHeap Num} (hl : d.Linked P) (hc : Classes ds T s)
    (hr : Required s₀ s ds T d t h)
    (hrun : luaRequiref (P.functions (n + 1)) d.name d.openFunc s =
      .returned () (s.put (.table t :: s.L.stack) h)) :
    openLib (P.functions (n + 1)) d.reg s =
      (libStateInit (P.functions n) d (s.withClass d t h)).andThen (fun _ u => .returned () u) := by
  have hentry : (h.pairs s.registry).get (.string d.name) = .table t := by
    rw [hr.entry, if_pos rfl]
  have hinit := libInit_put (C := P.functions n) (w := s.L.stack) (lacks_of_none hc.plain.1) hr.lacks
    (hc.fresh _ hr.grows) hentry
  unfold openLib LibDecl.reg
  rw [Code.bind_apply, hrun, Outcome.andThen_returned, Code.bind_apply,
    show P.functions (n + 1) d.initFunc = libInit (P.functions n) d from hl.inits _, hinit]
  unfold LuaVM.withClass
  cases libStateInit (P.functions n) d _ <;> rfl

omit [LuaNumber Num] in
/-- A `state_init` function runs behind `lib_init`. -/
theorem Opened.stateInit (ho : Opened G s₀ s ds T) (ht : d.Tame C G) (hG : ∀ d ∈ ds, ¬ G (.string d.name)) :
    ∃ u, libStateInit C d s = .returned () u ∧ Opened G s₀ u ds T := by
  unfold libStateInit
  cases hd : d.stateInit with
  | none => exact ⟨s, rfl, ho⟩
  | some hook =>
      obtain ⟨k, u, hrun, he⟩ := ht hook hd s ho.classes.toOrdinary
      refine ⟨u, ?_, ho.extends he hG⟩
      dsimp only
      rw [Code.bind_apply, hrun]
      rfl

/-- **The library is opened**, where the first one of its name has a function. -/
theorem openLib_opens (hl : d.Linked P) (ht : d.Tame (P.functions n) G) {libs : List LibDecl}
    (hs : s₀.Fresh libs) (hmem : d ∈ libs) (ho : Opened G s₀ s ds T)
    (hG : ∀ d' ∈ ds ++ [d], ¬ G (.string d'.name)) (hd : functionsOf (ds ++ [d]) d.name ≠ []) :
    ∃ T' t, openLib (P.functions (n + 1)) d.reg s = .returned () t ∧ Opened G s₀ t (ds ++ [d]) T' := by
  obtain ⟨hregistry, hglobals⟩ := ho.classes.plain
  by_cases hname : ∃ d' ∈ ds, d'.name = d.name
  · obtain ⟨d', hd', hname⟩ := hname
    have hr := ho.required_again hd' hname
    have hmod : openModule (P.functions (n + 1)) d.name d.openFunc
        (s.put ((s.L.heap.pairs s.registry).get (.string d.name) :: .table s.registry :: s.L.stack)
          s.L.heap) =
          .returned () (s.put (.table (T d.name) :: .table s.registry :: s.L.stack) s.L.heap) := by
      rw [← hname, ho.classes.entries d' hd']
      exact openModule_loaded rfl
    obtain ⟨u, hu, hopened⟩ := (ho.step hr).stateInit ht hG
    refine ⟨_, u, ?_, hopened⟩
    rw [openLib_of_required hl ho.classes hr (luaRequiref_put hregistry hglobals hmod), hu]
    rfl
  · have hnew : ∀ d' ∈ ds, d'.name ≠ d.name := fun d' hd' heq => hname ⟨d', hd', heq⟩
    have hr := ho.required_new hnew
    rw [functionsOf_new hnew] at hd
    have hopen : P.functions (n + 1) d.openFunc (s.put [.string d.name] s.L.heap) = _ :=
      (congrFun (hl.opens _) _).trans (libOpen_put hd (ho.classes.fresh _ (Nat.le_refl _)))
    have hmod := openModule_opens (w := s.L.stack) hregistry hopen
    rw [← ho.entry_new hs hmem hnew] at hmod
    obtain ⟨u, hu, hopened⟩ := (ho.step hr).stateInit ht hG
    refine ⟨_, u, ?_, hopened⟩
    rw [openLib_of_required hl ho.classes hr (luaRequiref_put hregistry hglobals hmod), hu]
    rfl

omit [LuaNumber Num] in
/-- The metatable of the strings has no `__newindex` still. -/
theorem Opened.strings {libs : List LibDecl} (ho : Opened G s₀ s ds T) (hs : s₀.Fresh libs)
    (m : TableRef) (hm : s.metatable .string = some m) :
    m ≠ s.registry ∧ m ≠ s.L.globals ∧
      (s.L.heap.pairs m).get (.string (bytes "__newindex")) = .nil := by
  rw [ho.metas .string (by simp)] at hm
  obtain ⟨hlt, hreg, hglob, hnewindex⟩ := hs.strings m hm
  rw [ho.registry, ho.globals, ho.frame m hlt hreg hglob]
  exact ⟨hreg, hglob, hnewindex⟩

/-- **A new library without static functions kills the process.** -/
theorem openLib_panics (hl : d.Linked P) {libs : List LibDecl} (hs : s₀.Fresh libs) (hmem : d ∈ libs)
    (ho : Opened G s₀ s ds T) (hnew : ∀ d' ∈ ds, d'.name ≠ d.name) (hd : d.functions = []) :
    ∃ t, openLib (P.functions (n + 1)) d.reg s = .died .panic t := by
  obtain ⟨hregistry, hglobals⟩ := ho.classes.plain
  -- the module is the argument of `lib_open`
  have hopen : P.functions (n + 1) d.openFunc (s.put [.string d.name] s.L.heap) =
      .returned 1 (s.put [.string d.name] s.L.heap) := by
    rw [show P.functions (n + 1) d.openFunc = libOpen (P.functions n) d from hl.opens _]
    unfold libOpen
    rw [if_neg (by simp [hd])]
    rfl
  have hmod := openModule_opens (w := s.L.stack) hregistry hopen
  rw [← ho.entry_new hs hmem hnew] at hmod
  have hreq := luaRequiref_put hregistry hglobals hmod
  have hentry : (((s.L.heap.rawSet s.registry (.string d.name) (.string d.name)).rawSet s.L.globals
      (.string d.name) (.string d.name)).pairs s.registry).get (.string d.name) = .string d.name := by
    rw [LuaHeap.rawSet_pairs_of_ne _ ho.classes.apart, LuaHeap.get_rawSet _ _ _ (by simp), if_pos rfl]
  obtain ⟨t, ht⟩ := libInit_string (C := P.functions n) (w := s.L.stack) (lacks_of_none hregistry) hentry (by
    intro m hm
    obtain ⟨hreg, hglob, hnewindex⟩ := ho.strings hs m hm
    rw [LuaHeap.rawSet_pairs_of_ne _ hglob, LuaHeap.rawSet_pairs_of_ne _ hreg]
    exact hnewindex)
  refine ⟨t, ?_⟩
  unfold openLib LibDecl.reg
  rw [Code.bind_apply, show luaRequiref _ d.name d.openFunc s = _ from hreq, Outcome.andThen_returned,
    Code.bind_apply, show P.functions (n + 1) d.initFunc = libInit (P.functions n) d from hl.inits _, ht]
  rfl

omit [LuaNumber Num] in
theorem openLibs_cons (x : LibReg) (xs : List LibReg) (s : LuaVM Num) :
    openLibs C (x :: xs) s = (openLib C x s).andThen (fun _ => openLibs C xs) := rfl

/-- **The loop opens one library after the other**, up to the first that has no
static function. -/
theorem openLibs_run {todo : List LibDecl} (hl : ∀ d ∈ todo, d.Linked P)
    (ht : ∀ d ∈ todo, d.Tame (P.functions n) G) (hG : ∀ d ∈ ds ++ todo, ¬ G (.string d.name))
    (hs : s₀.Fresh (ds ++ todo)) (ho : Opened G s₀ s ds T) (hds : ∀ d ∈ ds, functionsOf ds d.name ≠ []) :
    ((∀ d ∈ ds ++ todo, functionsOf (ds ++ todo) d.name ≠ []) ∧
      ∃ T' t, openLibs (P.functions (n + 1)) (todo.map LibDecl.reg) s = .returned () t ∧
        Opened G s₀ t (ds ++ todo) T') ∨
    ((∃ d ∈ ds ++ todo, functionsOf (ds ++ todo) d.name = []) ∧
      ∃ t, openLibs (P.functions (n + 1)) (todo.map LibDecl.reg) s = .died .panic t) := by
  induction todo generalizing s ds T with
  | nil =>
      rw [List.append_nil]
      exact .inl ⟨hds, T, s, rfl, ho⟩
  | cons d todo ih =>
      have hmem : d ∈ ds ++ d :: todo := List.mem_append_right _ List.mem_cons_self
      have happend : ds ++ d :: todo = (ds ++ [d]) ++ todo := by simp
      have hlast : d ∈ ds ++ [d] := List.mem_append_right _ (List.mem_singleton_self d)
      by_cases hd : functionsOf (ds ++ [d]) d.name = []
      · right
        have hnew : ∀ d' ∈ ds, d'.name ≠ d.name := by
          intro d' hd' hname
          rw [← hname, functionsOf_append hd'] at hd
          exact hds d' hd' hd
        refine ⟨⟨d, hmem, ?_⟩, ?_⟩
        · rw [happend, functionsOf_append hlast]
          exact hd
        · rw [functionsOf_new hnew] at hd
          obtain ⟨t, ht⟩ := openLib_panics (hl d List.mem_cons_self) hs hmem ho hnew hd
          refine ⟨t, ?_⟩
          rw [List.map_cons, openLibs_cons, ht]
          rfl
      · have hG' : ∀ d' ∈ ds ++ [d], ¬ G (.string d'.name) := by
          intro d' hd'
          exact hG d' (happend ▸ List.mem_append_left todo hd')
        obtain ⟨T', u, hu, ho'⟩ := openLib_opens (hl d List.mem_cons_self) (ht d List.mem_cons_self) hs hmem
          ho hG' hd
        have hstep : openLibs (P.functions (n + 1)) ((d :: todo).map LibDecl.reg) s =
            openLibs (P.functions (n + 1)) (todo.map LibDecl.reg) u := by
          rw [List.map_cons, openLibs_cons, hu]
          rfl
        have hds' : ∀ d' ∈ ds ++ [d], functionsOf (ds ++ [d]) d'.name ≠ [] := by
          intro d' hd'
          rcases mem_concat_cases hd' with hname | ⟨hin, -⟩
          · rw [hname]
            exact hd
          · rw [functionsOf_append hin]
            exact hds d' hin
        rw [hstep, happend]
        exact ih (fun d' hd' => hl d' (List.mem_cons_of_mem _ hd'))
          (fun d' hd' => ht d' (List.mem_cons_of_mem _ hd')) (happend ▸ hG) (happend ▸ hs) ho' hds'

omit [LuaNumber Num] in
theorem openLibs_append (xs ys : List LibReg) (s : LuaVM Num) :
    (openLibs C xs >>= fun _ => openLibs C ys) s = openLibs C (xs ++ ys) s := by
  induction xs generalizing s with
  | nil => rfl
  | cons x xs ih =>
      rw [List.cons_append, Code.bind_apply, openLibs_cons, openLibs_cons]
      cases openLib C x s with
      | returned u t => exact ih t
      | _ => rfl

omit [LuaNumber Num] in
/-- A read of a field of a class, and a call of it. -/
theorem Classes.reads (hc : Classes ds T s) {d : LibDecl} (hd : d ∈ ds) :
    (∀ n k, luaIndex C (n + 1) (.table (T d.name)) k s =
      .returned (classField (functionsOf ds d.name) (T d.name) k) s) ∧
    ∀ args, s.callee (.table (T d.name)) args =
      some (constructorOf ds d.name, args ++ [.table (T d.name)]) := by
  obtain ⟨m, hm, -, -, -, hnot, hpairs⟩ := hc.metas d hd
  have hlacks : s.Lacks s.L.heap (bytes "__index") (T d.name) := by
    intro m' hm'
    obtain rfl := Option.some.inj (hm.symm.trans hm')
    rw [hpairs]
    exact ⟨(hnot d hd).symm, rfl⟩
  constructor
  · intro n k
    rw [← hc.fields d hd k]
    exact luaIndex_table n hlacks.metamethod
  · intro args
    have hcall : s.metamethod (.table (T d.name)) (bytes "__call") =
        .function (constructorOf ds d.name) := by
      unfold LuaVM.metamethod
      rw [show (LuaValue.table (T d.name) : LuaValue Num).metaOwner = .table (T d.name) from rfl, hm]
      show (s.L.heap.pairs m).get _ = _
      rw [hpairs]
      rfl
    unfold LuaVM.callee
    rw [hcall]

/-- `load_libs` opens all libraries, or dies of one without static functions. -/
theorem loadLibs_cases (builtin libs : List LibDecl) (hl : ∀ d ∈ builtin ++ libs, d.Linked P) (n : Nat)
    (ht : ∀ d ∈ builtin ++ libs, d.Tame (P.functions n) G)
    (hG : ∀ d ∈ builtin ++ libs, ¬ G (.string d.name)) (hs : s.Fresh (builtin ++ libs)) :
    let ds := builtin ++ libs
    let run := loadLibs (P.functions (n + 1)) (builtin.map LibDecl.reg) (libs.map LibDecl.reg) s
    ((∀ d ∈ ds, functionsOf ds d.name ≠ []) ∧ ∃ T t, run = .returned () t ∧ Opened G s t ds T) ∨
    ((∃ d ∈ ds, functionsOf ds d.name = []) ∧ ∃ t, run = .died .panic t) := by
  intro ds run
  have hrun : openLibs (P.functions (n + 1)) (ds.map LibDecl.reg) s = run := by
    rw [List.map_append]
    exact (openLibs_append _ _ s).symm
  have hnil : Opened G s s [] (fun _ => 0) := opened_nil hs
  have hcases := openLibs_run hl ht hG hs hnil (by simp)
  rw [List.nil_append, hrun] at hcases
  exact hcases

/-- **LOADING THE LIBRARIES.**  Where the `state_init` functions return and set
no globals but `G`, `load_libs` returns just if the first library of every name
has a static function, and else the process dies of a panic.  Where it returns,
each name stands for one table, in the registry and in the globals: its fields
are the functions of the first library of the name, the last of each name, and
a call of it calls the constructor of the last library.  The tables are left on
the stack, and all else is as before, but for `G` and new tables. -/
theorem load_libs_opens (builtin libs : List LibDecl) (hl : ∀ d ∈ builtin ++ libs, d.Linked P) (n : Nat)
    (ht : ∀ d ∈ builtin ++ libs, d.Tame (P.functions n) G)
    (hG : ∀ d ∈ builtin ++ libs, ¬ G (.string d.name)) (hs : s.Fresh (builtin ++ libs)) :
    let ds := builtin ++ libs
    let C := P.functions (n + 1)
    let run := loadLibs C (builtin.map LibDecl.reg) (libs.map LibDecl.reg) s
    ((∃ t, run = .returned () t) ↔ ∀ d ∈ ds, functionsOf ds d.name ≠ []) ∧
    ((∃ t, run = .returned () t) ∨ ∃ t, run = .died .panic t) ∧
    ∀ t, run = .returned () t → ∃ T, Opened G s t ds T ∧ ∀ d ∈ ds,
      (∀ k, luaIndex C maxTagLoop (.table (T d.name)) k t =
        .returned (classField (functionsOf ds d.name) (T d.name) k) t) ∧
      ∀ args, t.callee (.table (T d.name)) args =
        some (constructorOf ds d.name, args ++ [.table (T d.name)]) := by
  intro ds C run
  rcases loadLibs_cases builtin libs hl n ht hG hs with
    ⟨hall, T, t, hreturned, ho⟩ | ⟨⟨d, hd, hnone⟩, t, hdied⟩
  · refine ⟨⟨fun _ => hall, fun _ => ⟨t, hreturned⟩⟩, .inl ⟨t, hreturned⟩, ?_⟩
    intro u hu
    obtain ⟨-, rfl⟩ := Outcome.returned.inj (hreturned.symm.trans hu)
    exact ⟨T, ho, fun d hd => ⟨(ho.classes.reads hd).1 99, (ho.classes.reads (C := C) hd).2⟩⟩
  · have hnot : ∀ u, run ≠ .returned () u := by
      intro u hu
      cases hdied.symm.trans hu
    exact ⟨⟨fun ⟨u, hu⟩ => absurd hu (hnot u), fun hall => absurd hnone (hall d hd)⟩,
      .inr ⟨t, hdied⟩, fun u hu => absurd hu (hnot u)⟩

/-- A builtin library. -/
def hashLib : LibDecl where
  name := bytes "hash"
  functions := [(bytes "md5", 10), (bytes "new", 3)]
  methods := []
  openFunc := 1
  initFunc := 2
  new := 3
  ctor := 7
  reserved := by decide

/-- A library of the same name, which was loaded from a file. -/
def otherHash : LibDecl where
  name := bytes "hash"
  functions := []
  methods := [(bytes "update", 11)]
  openFunc := 4
  initFunc := 5
  new := 6
  stateInit := some 8
  ctor := 7
  reserved := by decide

/-- A `state_init` function that sets a global. -/
def otherStateInit (C : CFunctions Int) : VmCode Int Nat := do
  onL (LuaState.push (.boolean true))
  let s ← Code.get
  luaSetFieldOf C (.table s.L.globals) (bytes "hash_updates")
  pure 0

/-- The code of the two libraries. -/
def hashProgram : Program Int := fun addr C =>
  match addr with
  | 1 => libOpen C hashLib
  | 2 => libInit C hashLib
  | 3 => libNew C hashLib
  | 4 => libOpen C otherHash
  | 5 => libInit C otherHash
  | 6 => libNew C otherHash
  | 8 => otherStateInit C
  | _ => pure 0

theorem hashProgram_linked : ∀ d ∈ [hashLib] ++ [otherHash], d.Linked hashProgram := by
  intro d hd
  rcases List.mem_cons.mp hd with rfl | hd
  · exact ⟨fun _ => rfl, fun _ => rfl, fun _ => rfl⟩
  · obtain rfl := List.mem_singleton.mp hd
    exact ⟨fun _ => rfl, fun _ => rfl, fun _ => rfl⟩

theorem hash_fresh : LuaVM.Fresh ({} : LuaVM Int) ([hashLib] ++ [otherHash]) :=
  ⟨⟨by decide, ⟨by decide, by decide⟩, ⟨rfl, rfl⟩, fun _ _ => rfl⟩, fun _ _ => rfl,
    fun _ hm => nomatch hm⟩

/-- The global of `otherStateInit`. -/
def hashGlobal (k : LuaValue Int) : Prop := k = .string (bytes "hash_updates")

theorem otherStateInit_extends (C : CFunctions Int) {s : LuaVM Int} (hs : s.Ordinary) :
    ∃ k t, otherStateInit C s = .returned k t ∧ s.Extends hashGlobal t := by
  have hset := luaSetFieldOf_put (C := C) (w := s.L.stack) (x := .boolean true)
    (lacks_of_none (h := s.L.heap) hs.plain.2) (bytes "hash_updates")
  refine ⟨0, s.put s.L.stack (s.L.heap.rawSet s.L.globals (.string (bytes "hash_updates")) (.boolean true)),
    ?_, ?_⟩
  · unfold otherStateInit
    have hpush : onL (LuaState.push (.boolean true)) s =
        .returned () (s.put (.boolean true :: s.L.stack) s.L.heap) := rfl
    rw [Code.bind_apply, hpush, Outcome.andThen_returned, Code.bind_apply, Code.get_apply,
      Outcome.andThen_returned, Code.bind_apply]
    exact congrArg (Outcome.andThen · _) hset
  · constructor
    case names =>
      intro k hk
      show (((s.L.heap.rawSet _ _ _).pairs s.L.globals).get k) = _
      rw [LuaHeap.get_rawSet _ _ _ (by simp)]
      exact if_neg hk
    case frame => exact fun r _ hr => LuaHeap.rawSet_pairs_of_ne _ hr _ _
    case fresh => exact hs.fresh
    case grows => exact Nat.le_refl _
    case metas => exact fun _ _ => rfl
    case context => exact ⟨rfl, rfl, rfl⟩
    all_goals rfl

theorem hash_tame (n : Nat) :
    ∀ d ∈ [hashLib] ++ [otherHash], d.Tame (hashProgram.functions (n + 1)) hashGlobal := by
  intro d hd hook hhook s hs
  rcases List.mem_cons.mp hd with rfl | hd
  · cases hhook
  · obtain rfl := List.mem_singleton.mp hd
    obtain rfl := Option.some.inj hhook
    exact otherStateInit_extends _ hs

theorem hash_names : ∀ d ∈ [hashLib] ++ [otherHash], ¬ hashGlobal (.string d.name) := by
  intro d hd heq
  have hname := LuaValue.string.inj heq
  rcases List.mem_cons.mp hd with rfl | hd
  · exact absurd hname (by decide)
  · obtain rfl := List.mem_singleton.mp hd
    exact absurd hname (by decide)

/-- The second library takes over the class of the first. -/
theorem load_libs_opens_hash :
    let ds := [hashLib] ++ [otherHash]
    let C := hashProgram.functions (1 + 1)
    let run := loadLibs C [hashLib.reg] [otherHash.reg] {}
    ((∃ t, run = .returned () t) ↔ ∀ d ∈ ds, functionsOf ds d.name ≠ []) ∧
    ((∃ t, run = .returned () t) ∨ ∃ t, run = .died .panic t) ∧
    ∀ t, run = .returned () t → ∃ T, Opened hashGlobal {} t ds T ∧ ∀ d ∈ ds,
      (∀ k, luaIndex C maxTagLoop (.table (T d.name)) k t =
        .returned (classField (functionsOf ds d.name) (T d.name) k) t) ∧
      ∀ args, t.callee (.table (T d.name)) args =
        some (constructorOf ds d.name, args ++ [.table (T d.name)]) :=
  load_libs_opens [hashLib] [otherHash] hashProgram_linked 1 (hash_tame 0) hash_names hash_fresh

end Run

end Classes

end Petrel
