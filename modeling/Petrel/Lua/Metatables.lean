/-
  Petrel.Lua.Metatables — metatables, the registry and calls of C functions.

  An access to a field may go on in the `__index` of a metatable, and a call of
  a value may call its `__call`.  Tables and full userdata have a metatable
  each, the values of any other type share one.  A C function runs on a frame
  of its own with its arguments, and says how many values on it are results.

  Main results:
    * `luaGetFieldOf_put`, `luaSetFieldOf_put`, … — the calls of the C API, on
      tables whose metatables do not interfere.
    * `callC_put` — a call of a C function.
-/

import Petrel.Lua.State

namespace Petrel

open Framework

/-! ## §1. Metatables and calls. -/

/-- What has a metatable. -/
inductive MetaOwner where
  | table (t : TableRef)
  | userdata (u : Nat)
  | nil | boolean | number | string | function | lightuserdata
  deriving DecidableEq

def LuaValue.metaOwner {Num : Type} : LuaValue Num → MetaOwner
  | .nil => .nil
  | .boolean _ => .boolean
  | .number _ => .number
  | .string _ => .string
  | .table t => .table t
  | .function _ => .function
  | .lightuserdata _ => .lightuserdata
  | .userdata u => .userdata u

/-- `lua_toboolean` -/
def LuaValue.toBoolean {Num : Type} : LuaValue Num → Bool
  | .nil | .boolean false => false
  | _ => true

/-- A Lua state with its registry and metatables, and the context of the
libraries: its `p_server` and `p_io_service` (none for a null pointer), and the
objects in `p_objects`. -/
structure LuaVM (Num : Type) where
  L : LuaState Num := { heap := { next := 2 } }
  registry : TableRef := 1
  metatable : MetaOwner → Option TableRef := fun _ => none
  ctx : Nat := 0
  server : Option Nat := none
  ioService : Option Nat := none
  objects : List Nat := []
  nextObject : Nat := 1

/-- Code that runs on a Lua state, registry and metatables included. -/
abbrev VmCode (Num α : Type) := Code Bytes Fault (LuaVM Num) α

/-- The C functions at their addresses: each gives the number of its results. -/
abbrev CFunctions (Num : Type) := Nat → VmCode Num Nat

/-- The code at each address, over the functions it calls. -/
abbrev Program (Num : Type) := Nat → CFunctions Num → VmCode Num Nat

/-- The functions of a program where calls may nest so deep; one more overflows
the C stack, which is an error. -/
def Program.functions {Num : Type} (P : Program Num) : Nat → CFunctions Num
  | 0, _ => Code.die .panic
  | n + 1, addr => P addr (P.functions n)

section Vm

variable {Num : Type} [DecidableEq Num] (C : CFunctions Num)

def LuaVM.mapL (g : LuaState Num → LuaState Num) (s : LuaVM Num) : LuaVM Num := { s with L := g s.L }

def LuaVM.setStack (st : List (LuaValue Num)) (s : LuaVM Num) : LuaVM Num :=
  s.mapL (fun L => { L with stack := st })

def LuaVM.mapHeap (g : LuaHeap Num → LuaHeap Num) (s : LuaVM Num) : LuaVM Num :=
  s.mapL (fun L => { L with heap := g L.heap })

/-- Code of the stack and the heap alone. -/
def onL (g : LuaState Num → LuaState Num) : VmCode Num Unit := Code.modify (LuaVM.mapL g)

def LuaVM.setMeta (v : LuaValue Num) (m : Option TableRef) (s : LuaVM Num) : LuaVM Num :=
  { s with metatable := Function.update s.metatable v.metaOwner m }

/-- The metamethod of a value for an event. -/
def LuaVM.metamethod (s : LuaVM Num) (v : LuaValue Num) (event : Bytes) : LuaValue Num :=
  match s.metatable v.metaOwner with
  | some m => (s.L.heap.pairs m).get (.string event)
  | none => .nil

/-- The field of a value without its metatable. -/
def LuaVM.rawField (s : LuaVM Num) (v k : LuaValue Num) : LuaValue Num :=
  match v with
  | .table t => (s.L.heap.pairs t).get k
  | _ => .nil

/-- Run the C function at an address with arguments, the last one first, for one
result. -/
def callC (addr : Nat) (args : List (LuaValue Num)) : VmCode Num (LuaValue Num) := fun s =>
  (C addr (s.setStack args)).andThen fun n t =>
    let t' := t.setStack s.L.stack
    if n = 0 then .returned .nil t'
    else match t.L.stack[n - 1]? with
      | some v => .returned v t'
      | none => .died .badIndex t'          -- fewer values than results

/-- The C function that a call of a value runs, and the arguments it gets. -/
def LuaVM.callee (s : LuaVM Num) (f : LuaValue Num) (args : List (LuaValue Num)) :
    Option (Nat × List (LuaValue Num)) :=
  match f with
  | .function addr => some (addr, args)
  | _ =>
      match s.metamethod f (bytes "__call") with
      | .function addr => some (addr, args ++ [f])
      | _ => none

/-- `lua_call(L, nargs, 1)` -/
def luaCall (nargs : Nat) : VmCode Num Unit := fun s =>
  match s.L.stack.drop nargs with
  | f :: rest =>
      match s.callee f (s.L.stack.take nargs) with
      | some (addr, args) =>
          (callC C addr args (s.setStack rest)).andThen
            (fun v t => .returned () (t.mapL (LuaState.push v)))
      | none => .died .panic s
  | [] => .died .panic s

/-- How many metatables Lua looks through for one access. -/
def maxTagLoop : Nat := 100

/-- Read a field: where the value has none, its `__index` is asked. -/
def luaIndex : Nat → LuaValue Num → LuaValue Num → VmCode Num (LuaValue Num)
  | 0, _, _ => Code.die .panic
  | n + 1, v, k => fun s =>
      if s.rawField v k ≠ .nil then .returned (s.rawField v k) s
      else match s.metamethod v (bytes "__index") with
        | .nil => if v.isTable then .returned .nil s else .died .panic s
        | .function addr => callC C addr [k, v] s
        | h => luaIndex n h k s

/-- Assign a field: where the value has none, its `__newindex` is asked. -/
def luaSetIndex : Nat → LuaValue Num → LuaValue Num → LuaValue Num → VmCode Num Unit
  | 0, _, _, _ => Code.die .panic
  | n + 1, v, k, x => fun s =>
      match v, s.rawField v k, s.metamethod v (bytes "__newindex") with
      | .table t, .nil, .nil => .returned () (s.mapHeap (fun h => h.rawSet t k x))
      | _, .nil, .nil => .died .panic s
      | _, .nil, .function addr => (callC C addr [x, k, v] s).andThen (fun _ t => .returned () t)
      | _, .nil, h => luaSetIndex n h k x s
      | .table t, _, _ => .returned () (s.mapHeap (fun h => h.rawSet t k x))
      | _, _, _ => .died .panic s

/-- `lua_getfield` on the value `v`. -/
def luaGetFieldOf (v : LuaValue Num) (k : Bytes) : VmCode Num Unit := do
  let x ← luaIndex C maxTagLoop v (.string k)
  onL (LuaState.push x)

/-- `lua_setfield` on the value `v`: the new value is popped. -/
def luaSetFieldOf (v : LuaValue Num) (k : Bytes) : VmCode Num Unit := do
  let s ← Code.get
  luaSetIndex C maxTagLoop v (.string k) (s.L.peek 1)
  onL (LuaState.pop 1)

/-- `lua_setfield` at a positive index. -/
def luaSetFieldAt (i : Nat) (k : Bytes) : VmCode Num Unit := do
  let s ← Code.get
  luaSetFieldOf C (s.L.peekAbs i) k

/-- `lua_gettop` -/
def luaGetTop : VmCode Num Nat := do
  let s ← Code.get
  pure s.L.stack.length

/-- `lua_pushvalue` at a positive index. -/
def luaPushValue (i : Nat) : VmCode Num Unit := onL (fun L => L.push (L.peekAbs i))

/-- `lua_remove` at a positive index. -/
def luaRemove (i : Nat) : VmCode Num Unit :=
  onL (fun L => { L with stack := L.stack.eraseIdx (L.stack.length - i) })

/-- `lua_setmetatable` at a positive index. -/
def luaSetMetatable (i : Nat) : VmCode Num Unit :=
  Code.modify fun s =>
    let m := match s.L.peek 1 with
      | .table m => some m
      | _ => none
    (s.setMeta (s.L.peekAbs i) m).mapL (LuaState.pop 1)

/-- `luaL_getmetatable` -/
def luaLGetMetatable (name : Bytes) : VmCode Num Unit := do
  let s ← Code.get
  luaGetFieldOf C (.table s.registry) name

/-- `luaL_newmetatable`: what is under the name already is left there. -/
def luaLNewMetatable (name : Bytes) : VmCode Num Unit := do
  let s ← Code.get
  let v ← luaIndex C maxTagLoop (.table s.registry) (.string name)
  if v ≠ .nil then onL (LuaState.push v)
  else do
    onL LuaState.newTable
    onL (fun L => L.push (L.peek 1))
    luaSetFieldOf C (.table s.registry) name

end Vm

/-! ## §2. What the calls do. -/

section Calls

variable {Num : Type} [DecidableEq Num] {C : CFunctions Num}
  {s : LuaVM Num} {w : List (LuaValue Num)} {h : LuaHeap Num}

/-- The state with another stack and another heap. -/
def LuaVM.put (s : LuaVM Num) (w : List (LuaValue Num)) (h : LuaHeap Num) : LuaVM Num :=
  s.mapL (fun L => { L with stack := w, heap := h })

/-- The heap with one more table. -/
def LuaHeap.alloc (h : LuaHeap Num) (ps : LuaPairs Num) : LuaHeap Num :=
  { h with pairs := Function.update h.pairs h.next ps, next := h.next + 1 }

omit [DecidableEq Num] in
theorem LuaHeap.alloc_pairs (h : LuaHeap Num) (ps : LuaPairs Num) :
    (h.alloc ps).pairs h.next = ps := Function.update_self ..

omit [DecidableEq Num] in
theorem LuaHeap.alloc_pairs_of_ne {t : TableRef} (hne : t ≠ h.next) (ps : LuaPairs Num) :
    (h.alloc ps).pairs t = h.pairs t := Function.update_of_ne hne ..

theorem LuaHeap.alloc_rawSet (h : LuaHeap Num) (ps : LuaPairs Num) (k v : LuaValue Num) :
    (h.alloc ps).rawSet h.next k v = h.alloc (ps.set k v) := by
  unfold LuaHeap.alloc LuaHeap.rawSet
  simp

theorem LuaHeap.get_rawSet (h : LuaHeap Num) (t : TableRef) (k : LuaValue Num) {v : LuaValue Num}
    (hv : v ≠ .nil) (k' : LuaValue Num) :
    ((h.rawSet t k v).pairs t).get k' = if k' = k then v else (h.pairs t).get k' := by
  rw [LuaHeap.rawSet_pairs]
  by_cases hk : k' = k
  · rw [if_pos hk, hk, LuaPairs.get_set_self _ _ hv]
  · rw [if_neg hk, LuaPairs.get_set_of_ne _ hv hk]

/-- The first field of a table. -/
theorem LuaPairs.set_nil (k : LuaValue Num) {v : LuaValue Num} (hv : v ≠ .nil) :
    LuaPairs.set [] k v = [(k, v)] := by
  unfold LuaPairs.set
  rw [if_neg hv]
  simp

/-- The metatable of a table, if it has one, has nothing for an event. -/
def LuaVM.Lacks (s : LuaVM Num) (h : LuaHeap Num) (event : Bytes) (t : TableRef) : Prop :=
  ∀ m, s.metatable (.table t) = some m → m ≠ t ∧ (h.pairs m).get (.string event) = .nil

theorem lacks_of_none {event : Bytes} {t : TableRef} (hnone : s.metatable (.table t) = none) :
    s.Lacks h event t := by
  intro m hm
  rw [hnone] at hm
  cases hm

theorem LuaVM.Lacks.rawSet {event : Bytes} {t : TableRef} (hp : s.Lacks h event t)
    (k v : LuaValue Num) : s.Lacks (h.rawSet t k v) event t := by
  intro m hm
  obtain ⟨hne, hevent⟩ := hp m hm
  rw [LuaHeap.rawSet_pairs_of_ne h hne]
  exact ⟨hne, hevent⟩

theorem LuaVM.Lacks.metamethod {event : Bytes} {t : TableRef} (hp : s.Lacks h event t) :
    (s.put w h).metamethod (.table t) event = .nil := by
  unfold LuaVM.metamethod
  show (match s.metatable (.table t) with | some m => (h.pairs m).get _ | none => .nil) = .nil
  cases hm : s.metatable (.table t) with
  | none => rfl
  | some m => exact (hp m hm).2

theorem luaIndex_table {t : TableRef} {k : LuaValue Num} (n : Nat)
    (hindex : s.metamethod (.table t) (bytes "__index") = .nil) :
    luaIndex C (n + 1) (.table t) k s = .returned ((s.L.heap.pairs t).get k) s := by
  change ite _ _ _ = _
  by_cases hraw : s.rawField (.table t) k = .nil
  · rw [if_neg (not_not.mpr hraw), hindex]
    exact congrArg (Outcome.returned · s) hraw.symm
  · exact if_pos hraw

/-- A field that a table lacks is read from the table its metatable names. -/
theorem luaIndex_meta {t t' : TableRef} {k : LuaValue Num} (n : Nat)
    (hraw : (s.L.heap.pairs t).get k = .nil)
    (hindex : s.metamethod (.table t) (bytes "__index") = .table t') :
    luaIndex C (n + 1) (.table t) k s = luaIndex C n (.table t') k s := by
  have hfield : s.rawField (.table t) k = .nil := hraw
  change ite _ _ _ = _
  rw [if_neg (not_not.mpr hfield), hindex]

theorem luaIndex_raw {t : TableRef} {k : LuaValue Num} (n : Nat)
    (hraw : (s.L.heap.pairs t).get k ≠ .nil) :
    luaIndex C (n + 1) (.table t) k s = .returned ((s.L.heap.pairs t).get k) s := if_pos hraw

theorem luaSetIndex_table {t : TableRef} {k x : LuaValue Num} (n : Nat)
    (hnewindex : s.metamethod (.table t) (bytes "__newindex") = .nil) :
    luaSetIndex C (n + 1) (.table t) k x s =
      .returned () (s.mapHeap (fun h => h.rawSet t k x)) := by
  unfold luaSetIndex
  rw [hnewindex]
  cases s.rawField (.table t) k <;> rfl

theorem luaSetIndex_string {b : Bytes} {k x : LuaValue Num} (n : Nat)
    (hnewindex : s.metamethod (.string b) (bytes "__newindex") = .nil) :
    luaSetIndex C (n + 1) (.string b) k x s = .died .panic s := by
  unfold luaSetIndex
  rw [hnewindex]
  rfl

theorem luaGetFieldOf_put {t : TableRef} (hp : s.Lacks h (bytes "__index") t) (k : Bytes) :
    luaGetFieldOf C (.table t) k (s.put w h) =
      .returned () (s.put ((h.pairs t).get (.string k) :: w) h) := by
  unfold luaGetFieldOf
  rw [Code.bind_apply, show maxTagLoop = 99 + 1 from rfl, luaIndex_table 99 hp.metamethod]
  rfl

theorem luaSetFieldOf_put {t : TableRef} {x : LuaValue Num}
    (hp : s.Lacks h (bytes "__newindex") t) (k : Bytes) :
    luaSetFieldOf C (.table t) k (s.put (x :: w) h) =
      .returned () (s.put w (h.rawSet t (.string k) x)) := by
  unfold luaSetFieldOf
  rw [Code.bind_apply, Code.get_apply, Outcome.andThen_returned, Code.bind_apply,
    show maxTagLoop = 99 + 1 from rfl, luaSetIndex_table 99 hp.metamethod]
  rfl

omit [DecidableEq Num] in
theorem push_put (v : LuaValue Num) :
    onL (LuaState.push v) (s.put w h) = .returned () (s.put (v :: w) h) := rfl

omit [DecidableEq Num] in
theorem pop_put (v : LuaValue Num) :
    onL (LuaState.pop 1) (s.put (v :: w) h) = .returned () (s.put w h) := rfl

omit [DecidableEq Num] in
theorem newTable_put : onL LuaState.newTable (s.put w h) =
    .returned () (s.put (.table h.next :: w) (h.alloc [])) := rfl

omit [DecidableEq Num] in
theorem luaGetTop_put : luaGetTop (s.put w h) = .returned w.length (s.put w h) := rfl

omit [DecidableEq Num] in
/-- The value that was on top of `w`. -/
theorem peekAbs_put (above : List (LuaValue Num)) (v : LuaValue Num) (w : List (LuaValue Num)) :
    (s.put (above ++ v :: w) h).L.peekAbs (w.length + 1) = v := by
  show ((above ++ v :: w)[(above ++ v :: w).length - (w.length + 1)]?).getD .nil = v
  rw [List.length_append, List.length_cons, Nat.add_sub_cancel,
    List.getElem?_append_right (Nat.le_refl _), Nat.sub_self]
  rfl

omit [DecidableEq Num] in
theorem luaPushValue_put (above : List (LuaValue Num)) (v : LuaValue Num)
    (w : List (LuaValue Num)) :
    luaPushValue (w.length + 1) (s.put (above ++ v :: w) h) =
      .returned () (s.put (v :: (above ++ v :: w)) h) := by
  unfold luaPushValue onL
  rw [Code.modify_apply]
  show Outcome.returned () (s.put ((s.put (above ++ v :: w) h).L.peekAbs (w.length + 1) ::
    (above ++ v :: w)) h) = _
  rw [peekAbs_put]

omit [DecidableEq Num] in
theorem luaSetMetatable_put (m : TableRef) (above : List (LuaValue Num)) (v : LuaValue Num)
    (w : List (LuaValue Num)) :
    luaSetMetatable (w.length + 1) (s.put (.table m :: (above ++ v :: w)) h) =
      .returned () ((s.setMeta v (some m)).put (above ++ v :: w) h) := by
  unfold luaSetMetatable
  rw [Code.modify_apply]
  have hpeek := peekAbs_put (s := s) (h := h) (.table m :: above) v w
  rw [List.cons_append] at hpeek
  rw [hpeek]
  rfl

theorem luaSetFieldAt_put {t : TableRef} (hp : s.Lacks h (bytes "__newindex") t)
    (x : LuaValue Num) (above w : List (LuaValue Num)) (k : Bytes) :
    luaSetFieldAt C (w.length + 1) k (s.put (x :: (above ++ .table t :: w)) h) =
      .returned () (s.put (above ++ .table t :: w) (h.rawSet t (.string k) x)) := by
  have hpeek := peekAbs_put (s := s) (h := h) (x :: above) (.table t) w
  rw [List.cons_append] at hpeek
  unfold luaSetFieldAt
  rw [Code.bind_apply, Code.get_apply, Outcome.andThen_returned, hpeek]
  exact luaSetFieldOf_put hp k

omit [DecidableEq Num] in
/-- A C function that leaves its one result on top of its frame. -/
theorem callC_put {addr : Nat} {args : List (LuaValue Num)} {t : LuaVM Num} {v : LuaValue Num}
    {frame : List (LuaValue Num)} {h' : LuaHeap Num}
    (hrun : C addr (s.put args h) = .returned 1 (t.put (v :: frame) h')) :
    callC C addr args (s.put w h) = .returned v (t.put w h') := by
  unfold callC
  rw [show (s.put w h).setStack args = s.put args h from rfl, hrun]
  rfl

/-- A call of a value with `args` runs the C function that the value stands for. -/
theorem luaCall_callee {addr : Nat} {f : LuaValue Num} {args frame : List (LuaValue Num)}
    (hcallee : (s.put (args ++ f :: w) h).callee f args = some (addr, frame)) :
    luaCall C args.length (s.put (args ++ f :: w) h) =
      (callC C addr frame (s.put w h)).andThen
        (fun v t => .returned () (t.mapL (LuaState.push v))) := by
  have hdrop : (s.put (args ++ f :: w) h).L.stack.drop args.length = f :: w := List.drop_left
  have htake : (s.put (args ++ f :: w) h).L.stack.take args.length = args := List.take_left
  unfold luaCall
  rw [hdrop, htake]
  dsimp only
  rw [hcallee]
  rfl

/-- A call whose C function leaves its one result on top. -/
theorem luaCall_put {addr : Nat} {f v : LuaValue Num} {args frame' frame : List (LuaValue Num)}
    {t : LuaVM Num} {h' : LuaHeap Num}
    (hcallee : (s.put (args ++ f :: w) h).callee f args = some (addr, frame'))
    (hrun : C addr (s.put frame' h) = .returned 1 (t.put (v :: frame) h')) :
    luaCall C args.length (s.put (args ++ f :: w) h) = .returned () (t.put (v :: w) h') := by
  rw [luaCall_callee hcallee, callC_put hrun]
  rfl

/-- A call of which the process dies. -/
theorem luaCall_died {addr : Nat} {f : LuaValue Num} {args frame : List (LuaValue Num)}
    {t : LuaVM Num} {fault : Fault}
    (hcallee : (s.put (args ++ f :: w) h).callee f args = some (addr, frame))
    (hrun : C addr (s.put frame h) = .died fault t) :
    luaCall C args.length (s.put (args ++ f :: w) h) = .died fault t := by
  have hdied : callC C addr frame (s.put w h) = .died fault t := by
    unfold callC
    rw [show (s.put w h).setStack frame = s.put frame h from rfl, hrun]
    rfl
  rw [luaCall_callee hcallee, hdied]
  rfl

end Calls

end Petrel
