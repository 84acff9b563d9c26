/-
  Petrel.Lib.Library — library objects and their handles in Lua.

  `lib_new` makes an object, notes it in `p_objects` and gives Lua a table
  that holds a pointer to it.  `free_state` deletes the objects of a request
  when the state goes back to its pool, but the Lua heap of the state stays
  as it is: a table that the handler has put into a global still holds the
  pointer when the next request runs.

  What a handler can do with the tables is spelled out as primitive
  operations on the values it can name.  Lua code cannot make a light
  userdata, so every pointer it holds was once made by `lib_new`.

  Main results:
    * `lib_inv_reach` — every pointer in the Lua state names an object that
      was made, and `p_objects` are those of the current request.
    * `method_object_live` — a method runs on a live object if the object was
      made in the request that calls it.
-/

import Petrel.Framework.Machine
import Petrel.Lua.State

namespace Petrel

open Framework

/-! ## §1. Objects and methods. -/

/-- A class: its name and the functions of its methods. -/
structure LibClass where
  name : Bytes
  methods : List (Bytes × Nat)

/-- A method that `ADD_LIB_METHOD` has added to a class. -/
structure LibMethod where
  lib : Bytes
  func : Bytes

/-- What the wrapper of a method does: call the method on an object, or raise
an error. -/
inductive Dispatch where
  | object (obj : Nat)
  | error (msg : Bytes)
  deriving DecidableEq

section Library

variable {Num : Type} [DecidableEq Num] [LuaNumber Num]

/-- The key of the pointer in an object table. -/
def thisKey : LuaValue Num := .number (LuaNumber.ofInt 1)

/-- The wrapper of `ADD_LIB_METHOD` for the first argument `v`. -/
def libMethod (m : LibMethod) (heap : LuaHeap Num) (v : LuaValue Num) : Dispatch :=
  match v with
  | .table t =>
      match (heap.pairs t).get thisKey with
      -- the pointer itself is all that the cast looks at
      | .lightuserdata obj =>
          if obj ≠ 0 then .object obj
          else .error (bytes "cast to " ++ m.lib ++ bytes "* failed")
      | _ => .error (bytes "unable to find _this")
  | _ => .error (bytes "Invalid method call, did you mean obj:" ++ m.func ++ bytes " instead of obj." ++
      m.func ++ bytes "?")

/-- The table of a new object: the pointer at index 1 and the methods. -/
def objectTable (c : LibClass) (obj : Nat) : LuaPairs Num :=
  c.methods.foldl (fun ps f => ps.set (.string f.1) (.function f.2))
    (LuaPairs.set [] thisKey (.lightuserdata obj))

/-! ## §2. A Lua state over its requests. -/

/-- A pooled Lua state: its heap, the values that the running code can name
(the table of the globals first), and the objects in `p_objects`.  Objects
are numbered from 1 in the order they are made; `firstOfRequest` is the first
that the current request has made or is going to make.  `dangling` records
the calls that ran on a deleted object. -/
structure LibState (Num : Type) where
  heap : LuaHeap Num := { next := 1 }
  roots : List (LuaValue Num) := [.table 0]
  objects : List Nat := []
  next : Nat := 1
  firstOfRequest : Nat := 1
  dangling : List Nat := []
  closed : Bool := false

/-- What Lua code does with the values it can name. -/
inductive LuaOp (Num : Type) where
  | constant (v : LuaValue Num)     -- a value that is no pointer
  | newTable
  | get (i j : Nat)                 -- `roots[i][roots[j]]`
  | set (i j k : Nat)               -- `roots[i][roots[j]] = roots[k]`
  | pair (i n : Nat)                -- the key and the value of a pair, by `next`
  | drop (i : Nat)
  deriving DecidableEq

inductive LibAction (Num : Type) where
  | lua (op : LuaOp Num)
  | new (c : LibClass)
  | call (m : LibMethod) (i : Nat)  -- `roots[i]:func(..)`
  | free                            -- the handler has returned: `free_state`
  | destroy

/-- The value is neither a table nor a pointer. -/
def LuaValue.isConstant : LuaValue Num → Bool
  | .table _ | .lightuserdata _ => false
  | _ => true

omit [LuaNumber Num] in
/-- The heap and the values after an operation. -/
def LuaOp.exec (heap : LuaHeap Num) (roots : List (LuaValue Num)) :
    LuaOp Num → Option (LuaHeap Num × List (LuaValue Num))
  | .constant v => if v.isConstant then some (heap, roots ++ [v]) else none
  | .newTable =>
      some ({ heap with
        pairs := Function.update heap.pairs heap.next []
        next := heap.next + 1 }, roots ++ [.table heap.next])
  | .get i j =>
      match roots[i]?, roots[j]? with
      | some (.table t), some k => some (heap, roots ++ [(heap.pairs t).get k])
      | _, _ => none
  | .set i j k =>
      match roots[i]?, roots[j]?, roots[k]? with
      | some (.table t), some key, some v => some (heap.rawSet t key v, roots)
      | _, _, _ => none
  | .pair i n =>
      match roots[i]? with
      | some (.table t) => ((heap.pairs t)[n]?).map (fun p => (heap, roots ++ [p.1, p.2]))
      | _ => none
  | .drop i => if 0 < i then some (heap, roots.eraseIdx i) else none

/-- `lib_new`. -/
def LibState.new (s : LibState Num) (c : LibClass) : LibState Num :=
  { s with
    objects := s.objects ++ [s.next]
    next := s.next + 1
    heap := { s.heap with
      pairs := Function.update s.heap.pairs s.heap.next (objectTable c s.next)
      next := s.heap.next + 1 }
    roots := s.roots ++ [.table s.heap.next] }

/-- A method call.  An error of the wrapper changes nothing here. -/
def LibState.call (s : LibState Num) (m : LibMethod) (i : Nat) : Option (LibState Num) :=
  (s.roots[i]?).map fun v =>
    match libMethod m s.heap v with
    | .object obj => if obj ∈ s.objects then s else { s with dangling := s.dangling ++ [obj] }
    | .error _ => s

def libStep (s : LibState Num) (a : LibAction Num) : Option (LibState Num) :=
  if s.closed then none
  else match a with
    | .lua op => (op.exec s.heap s.roots).map fun p => { s with heap := p.1, roots := p.2 }
    | .new c => some (s.new c)
    | .call m i => s.call m i
    | .free =>
        -- the objects are deleted, the locals are gone, the heap stays
        some { s with objects := [], firstOfRequest := s.next, roots := s.roots.take 1 }
    | .destroy => some { s with objects := [], firstOfRequest := s.next, roots := [], closed := true }

/-- One pooled Lua state and its handlers. -/
def libMachine (Num : Type) [DecidableEq Num] [LuaNumber Num] :
    Machine (LibState Num) (LibAction Num) where
  init := {}
  step := libStep

/-! ## §3. Where pointers come from. -/

/-- A pointer is to an object that was made before the object `n`. -/
def LuaValue.Known (n : Nat) : LuaValue Num → Prop
  | .lightuserdata obj => 0 < obj ∧ obj < n
  | _ => True

/-- The pairs of a table hold known pointers only. -/
def LuaPairs.Known (n : Nat) (ps : LuaPairs Num) : Prop := ∀ p ∈ ps, p.1.Known n ∧ p.2.Known n

/-- What holds in every state of every run. -/
structure LibInv (s : LibState Num) : Prop where
  roots : ∀ v ∈ s.roots, v.Known s.next
  heap : ∀ t, LuaPairs.Known s.next (s.heap.pairs t)
  first : 0 < s.firstOfRequest ∧ s.firstOfRequest ≤ s.next
  objects : ∀ obj, obj ∈ s.objects ↔ s.firstOfRequest ≤ obj ∧ obj < s.next

omit [DecidableEq Num] [LuaNumber Num] in
theorem LuaValue.Known.mono {n m : Nat} (hnm : n ≤ m) {v : LuaValue Num} (h : v.Known n) : v.Known m := by
  cases v with
  | lightuserdata obj => exact ⟨h.1, lt_of_lt_of_le h.2 hnm⟩
  | _ => trivial

omit [DecidableEq Num] [LuaNumber Num] in
theorem LuaPairs.Known.mono {n m : Nat} (hnm : n ≤ m) {ps : LuaPairs Num} (h : LuaPairs.Known n ps) :
    LuaPairs.Known m ps :=
  fun p hp => ⟨(h p hp).1.mono hnm, (h p hp).2.mono hnm⟩

omit [LuaNumber Num] in
theorem LuaPairs.Known.get {n : Nat} {ps : LuaPairs Num} (h : LuaPairs.Known n ps) (k : LuaValue Num) :
    (ps.get k).Known n := by
  unfold LuaPairs.get
  cases hf : ps.find? (fun p => p.1 = k) with
  | none => trivial
  | some p => exact (h p (List.mem_of_find?_eq_some hf)).2

omit [LuaNumber Num] in
theorem LuaPairs.Known.set {n : Nat} {ps : LuaPairs Num} (h : LuaPairs.Known n ps) {k v : LuaValue Num}
    (hk : k.Known n) (hv : v.Known n) : LuaPairs.Known n (ps.set k v) := by
  unfold LuaPairs.set
  -- nil removes the pair, and a key that is there keeps its place
  split
  · exact fun p hp => h p (List.mem_of_mem_filter hp)
  · split
    · intro p hp
      obtain ⟨q, hq, rfl⟩ := List.mem_map.mp hp
      split
      · exact ⟨hk, hv⟩
      · exact h q hq
    · intro p hp
      rcases List.mem_append.mp hp with hp | hp
      · exact h p hp
      · rw [List.mem_singleton.mp hp]
        exact ⟨hk, hv⟩

/-- The table of a new object holds the pointer to it, and no other. -/
theorem known_objectTable (c : LibClass) {obj : Nat} (hobj : 0 < obj) :
    LuaPairs.Known (obj + 1) (objectTable c obj : LuaPairs Num) := by
  -- the methods are functions under strings
  have hfold : ∀ (fs : List (Bytes × Nat)) (ps : LuaPairs Num), LuaPairs.Known (obj + 1) ps →
      LuaPairs.Known (obj + 1) (fs.foldl (fun ps f => ps.set (.string f.1) (.function f.2)) ps) := by
    intro fs
    induction fs with
    | nil => exact fun _ h => h
    | cons f fs ih => exact fun ps h => ih _ (h.set trivial trivial)
  refine hfold c.methods _ (LuaPairs.Known.set ?_ trivial ⟨hobj, Nat.lt_succ_self obj⟩)
  intro p hp
  cases hp

omit [LuaNumber Num] in
/-- **Lua code makes no pointers.** -/
theorem luaOp_known {n : Nat} {heap heap' : LuaHeap Num} {roots roots' : List (LuaValue Num)}
    {op : LuaOp Num} (hroots : ∀ v ∈ roots, v.Known n) (hheap : ∀ t, LuaPairs.Known n (heap.pairs t))
    (h : op.exec heap roots = some (heap', roots')) :
    (∀ v ∈ roots', v.Known n) ∧ ∀ t, LuaPairs.Known n (heap'.pairs t) := by
  -- what an operation pushes, and what it writes
  have hpush : ∀ vs : List (LuaValue Num), (∀ v ∈ vs, v.Known n) → ∀ v ∈ roots ++ vs, v.Known n := by
    intro vs hvs v hv
    rcases List.mem_append.mp hv with hv | hv
    · exact hroots v hv
    · exact hvs v hv
  have hupdate : ∀ t (ps : LuaPairs Num), LuaPairs.Known n ps →
      ∀ u, LuaPairs.Known n (Function.update heap.pairs t ps u) := by
    intro t ps hps u
    by_cases hu : u = t
    · subst hu
      rw [Function.update_self]
      exact hps
    · rw [Function.update_of_ne hu]
      exact hheap u
  cases op with
  | constant v =>
      simp only [LuaOp.exec] at h
      split at h
      · rename_i hconst
        obtain ⟨rfl, rfl⟩ := Prod.mk.inj (Option.some.inj h)
        refine ⟨hpush [v] ?_, hheap⟩
        intro w hw
        rw [List.mem_singleton.mp hw]
        cases v <;> trivial
      · cases h
  | newTable =>
      obtain ⟨rfl, rfl⟩ := Prod.mk.inj (Option.some.inj h)
      refine ⟨hpush [.table heap.next] ?_, hupdate _ _ (fun p hp => by cases hp)⟩
      intro w hw
      rw [List.mem_singleton.mp hw]
      trivial
  | get i j =>
      simp only [LuaOp.exec] at h
      split at h
      · rename_i u k hi hj
        obtain ⟨rfl, rfl⟩ := Prod.mk.inj (Option.some.inj h)
        refine ⟨hpush _ ?_, hheap⟩
        intro w hw
        rw [List.mem_singleton.mp hw]
        exact (hheap u).get k
      · cases h
  | set i j k =>
      simp only [LuaOp.exec] at h
      split at h
      · rename_i u key v hi hj hk
        obtain ⟨rfl, rfl⟩ := Prod.mk.inj (Option.some.inj h)
        exact ⟨hroots, hupdate u _ ((hheap u).set (hroots key (List.mem_of_getElem? hj))
          (hroots v (List.mem_of_getElem? hk)))⟩
      · cases h
  | pair i k =>
      simp only [LuaOp.exec] at h
      split at h
      · rename_i u hi
        obtain ⟨p, hp, heq⟩ := Option.map_eq_some_iff.mp h
        obtain ⟨rfl, rfl⟩ := Prod.mk.inj heq
        -- both come from a table
        have hknown := hheap u p (List.mem_of_getElem? hp)
        refine ⟨hpush _ ?_, hheap⟩
        intro w hw
        rcases List.mem_cons.mp hw with rfl | hw
        · exact hknown.1
        · rw [List.mem_singleton.mp hw]
          exact hknown.2
      · cases h
  | drop i =>
      simp only [LuaOp.exec] at h
      split at h
      · obtain ⟨rfl, rfl⟩ := Prod.mk.inj (Option.some.inj h)
        exact ⟨fun v hv => hroots v (List.mem_of_mem_eraseIdx hv), hheap⟩
      · cases h

/-- `lib_new` makes the one pointer that is new. -/
theorem new_inv {s : LibState Num} (h : LibInv s) (c : LibClass) : LibInv (s.new c) := by
  obtain ⟨hpos, hle⟩ := h.first
  refine ⟨?_, ?_, ⟨hpos, Nat.le_succ_of_le hle⟩, ?_⟩
  · intro v hv
    rcases List.mem_append.mp hv with hv | hv
    · exact (h.roots v hv).mono (Nat.le_succ _)
    · rw [List.mem_singleton.mp hv]
      trivial
  · intro u
    show LuaPairs.Known (s.next + 1) (Function.update s.heap.pairs s.heap.next _ u)
    by_cases hu : u = s.heap.next
    · subst hu
      rw [Function.update_self]
      exact known_objectTable c (lt_of_lt_of_le hpos hle)
    · rw [Function.update_of_ne hu]
      exact LuaPairs.Known.mono (Nat.le_succ _) (h.heap u)
  · -- the new object belongs to the current request
    intro obj
    show obj ∈ s.objects ++ [s.next] ↔ s.firstOfRequest ≤ obj ∧ obj < s.next + 1
    rw [List.mem_append, List.mem_singleton, h.objects]
    omega

/-- A request that has just begun has no objects. -/
theorem noObject_iff (n obj : Nat) : obj ∈ ([] : List Nat) ↔ n ≤ obj ∧ obj < n := by
  constructor
  · intro h
    cases h
  · intro h
    omega

theorem lib_inv_step {s t : LibState Num} {a : LibAction Num} (h : LibInv s)
    (ht : libStep s a = some t) : LibInv t := by
  unfold libStep at ht
  split at ht
  · cases ht
  · cases a with
    | lua op =>
        obtain ⟨p, hp, rfl⟩ := Option.map_eq_some_iff.mp ht
        obtain ⟨hroots, hheap⟩ := luaOp_known h.roots h.heap hp
        exact ⟨hroots, hheap, h.first, h.objects⟩
    | new c =>
        obtain rfl := Option.some.inj ht
        exact new_inv h c
    | call m i =>
        -- a call records at most that it ran on a deleted object
        obtain ⟨v, -, rfl⟩ := Option.map_eq_some_iff.mp ht
        split
        · split
          · exact h
          · exact ⟨h.roots, h.heap, h.first, h.objects⟩
        · exact h
    | free =>
        obtain rfl := Option.some.inj ht
        refine ⟨fun v hv => h.roots v (List.mem_of_mem_take hv), h.heap,
          ⟨lt_of_lt_of_le h.first.1 h.first.2, le_rfl⟩, ?_⟩
        exact noObject_iff s.next
    | destroy =>
        obtain rfl := Option.some.inj ht
        refine ⟨?_, h.heap, ⟨lt_of_lt_of_le h.first.1 h.first.2, le_rfl⟩, ?_⟩
        · intro v hv
          cases hv
        · exact noObject_iff s.next

/-- **Every pointer names an object that was made.** -/
theorem lib_inv_reach {g : LibState Num → LibAction Num → Prop} {s : LibState Num}
    (h : (libMachine Num).ReachWhen g s) : LibInv s := by
  refine h.invariant (I := LibInv) ⟨?_, ?_, ⟨Nat.one_pos, le_rfl⟩, ?_⟩
    (fun _ _ _ hs _ ht => lib_inv_step hs ht)
  · intro v hv
    rw [List.mem_singleton.mp hv]
    trivial
  · intro u p hp
    cases hp
  · exact noObject_iff 1

/-! ## §4. Method calls. -/

/-- The pointer in a table. -/
def thisPointer (heap : LuaHeap Num) : LuaValue Num → Option Nat
  | .table t =>
      match (heap.pairs t).get thisKey with
      | .lightuserdata obj => some obj
      | _ => none
  | _ => none

/-- The wrapper calls the method on the object of the pointer. -/
theorem libMethod_object {m : LibMethod} {heap : LuaHeap Num} {v : LuaValue Num} {obj : Nat}
    (h : libMethod m heap v = .object obj) : thisPointer heap v = some obj := by
  unfold libMethod at h
  unfold thisPointer
  cases v with
  | table t =>
      simp only at h ⊢
      split at h
      · split at h
        · rw [Dispatch.object.inj h]
        · cases h
      · cases h
  | _ => cases h

/-- A pointer in a value that Lua can name is known. -/
theorem LibInv.pointer_known {s : LibState Num} (h : LibInv s) {v : LuaValue Num} {obj : Nat}
    (hv : thisPointer s.heap v = some obj) : 0 < obj ∧ obj < s.next := by
  unfold thisPointer at hv
  cases v with
  | table t =>
      simp only at hv
      have hknown := (h.heap t).get thisKey
      split at hv
      · rename_i p hp
        rw [hp] at hknown
        exact Option.some.inj hv ▸ hknown
      · cases hv
  | _ => cases hv

/-- The table a method is called on was made in the current request. -/
def CallsCurrent (s : LibState Num) : LibAction Num → Prop
  | .call _ i => ∀ v obj, s.roots[i]? = some v → thisPointer s.heap v = some obj → s.firstOfRequest ≤ obj
  | _ => True

/-- A call runs on a live object exactly if the object was made in the
current request. -/
theorem dispatch_live_iff {s : LibState Num} (h : LibInv s) {m : LibMethod} {v : LuaValue Num} {obj : Nat}
    (hobj : libMethod m s.heap v = .object obj) : obj ∈ s.objects ↔ s.firstOfRequest ≤ obj := by
  rw [h.objects]
  exact and_iff_left (h.pointer_known (libMethod_object hobj)).2

theorem dangling_step {s t : LibState Num} {a : LibAction Num} (hinv : LibInv s)
    (h : s.dangling = []) (hcall : CallsCurrent s a) (ht : libStep s a = some t) : t.dangling = [] := by
  unfold libStep at ht
  split at ht
  · cases ht
  · cases a with
    | lua op =>
        obtain ⟨p, -, rfl⟩ := Option.map_eq_some_iff.mp ht
        exact h
    | new c =>
        obtain rfl := Option.some.inj ht
        exact h
    | call m i =>
        obtain ⟨v, hv, rfl⟩ := Option.map_eq_some_iff.mp ht
        split
        · rename_i obj hobj
          -- the object was made in this request, so nobody has deleted it
          have hlive := (dispatch_live_iff hinv hobj).mpr (hcall v obj hv (libMethod_object hobj))
          rw [if_pos hlive]
          exact h
        · exact h
    | free | destroy =>
        obtain rfl := Option.some.inj ht
        exact h

/-- **METHODS RUN ON LIVE OBJECTS**, in every run whose method calls name
objects that were made in the request of the call: no call has run on a
deleted object.  In any state, a call that names another object would. -/
theorem method_object_live {s : LibState Num} (h : (libMachine Num).ReachWhen CallsCurrent s) :
    s.dangling = [] ∧ ∀ m v obj, libMethod m s.heap v = .object obj →
      (obj ∈ s.objects ↔ s.firstOfRequest ≤ obj) := by
  have hdangling : s.dangling = [] := by
    refine h.invariant_of (I := fun s => s.dangling = []) (fun _ h => lib_inv_reach h) rfl ?_
    intro s a t hinv hs hcall ht
    exact dangling_step hinv hs hcall ht
  exact ⟨hdangling, fun m v obj hobj => dispatch_live_iff (lib_inv_reach h) hobj⟩

instance (s : LibState Num) (a : LibAction Num) : Decidable (CallsCurrent s a) := by
  cases a with
  | call m i =>
      refine decidable_of_iff
        (∀ v ∈ s.roots[i]?, ∀ obj ∈ thisPointer s.heap v, s.firstOfRequest ≤ obj) ?_
      exact ⟨fun h v obj hv hobj => h v hv obj hobj, fun h v hv obj hobj => h v obj hv hobj⟩
  | _ => exact .isTrue trivial

/-- A handler makes an object, keeps it in a global and calls it. -/
theorem method_object_live_global :
    ∃ s, (libMachine Int).ReachWhen CallsCurrent s ∧ s.objects = [1] ∧ s.dangling = [] := by
  obtain ⟨s, hs, hobj⟩ := Machine.exists_reachWhen_of_run (libMachine Int) CallsCurrent
    [.new ⟨bytes "http_client", [(bytes "get", 0)]⟩, .lua (.constant (.string (bytes "h"))),
      .lua (.set 0 2 1), .call ⟨bytes "http_client", bytes "get"⟩ 1]
    (fun s => s.objects = [1]) (by decide)
  exact ⟨s, hs, hobj, (method_object_live hs).1⟩

/-- **A HANDLE OUTLIVES ITS OBJECT.**  One request leaves an object in the
global "h", the next one calls a method of it. -/
theorem method_on_deleted_object :
    ∃ s, (libMachine Int).Reach s ∧ s.objects = [] ∧ s.dangling = [1] :=
  Machine.exists_reach_of_run (libMachine Int)
    [.new ⟨bytes "http_client", [(bytes "get", 0)]⟩, .lua (.constant (.string (bytes "h"))),
      .lua (.set 0 2 1), .free, .lua (.constant (.string (bytes "h"))), .lua (.get 0 1),
      .call ⟨bytes "http_client", bytes "get"⟩ 2]
    (fun s => s.objects = [] ∧ s.dangling = [1]) (by decide)

end Library

end Petrel
