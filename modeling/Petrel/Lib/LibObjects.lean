/-
  Petrel.Lib.LibObjects — objects of the libraries of a Lua state.

  Calling a class calls `lib_new` with the table of the class in front of the
  arguments.  It makes an object, notes it in `p_objects` and gives Lua a table
  with a pointer to it and the methods; what is no method is looked up in the
  class.

  A new context has no server and no `io_service`; they are those of the request
  that takes the state.  The constructor of every library refers to the
  `io_service`, and what it does besides is code of its class: it gets the
  context and no Lua state, so that the hypothesis on it, `LibDecl.Makes`, is
  that it returns and leaves the context as it is.

  Main results:
    * `libNew_put`          — one run of `lib_new`.
    * `Ready.construct`     — one call of a class.
    * `objects_constructed` — after `load_libs`, any calls of the classes in a
      request make as many objects, each with its own table, methods and
      functions; before the first request a call reads a null pointer.
-/

import Petrel.Lib.LoadLibs

namespace Petrel

open Framework

/-! ## §1. Calls of the classes. -/

section Construct

variable {Num : Type} [DecidableEq Num] (C : CFunctions Num)

/-- The end of `create_state`: the library context becomes a global. -/
def installContext (ctx : Nat) : VmCode Num Unit := do
  Code.modify (fun s => { s with ctx := ctx, server := none, ioService := none, objects := [] })
  onL (LuaState.push (.userdata ctx))
  let s ← Code.get
  luaSetFieldOf C (.table s.L.globals) (bytes "petrel_context")

/-- The first lines of `handle_request` and of `bootstrap`: the context gets the
server and the `io_service`. -/
def enterRequest (server ioService : Nat) : VmCode Num Unit :=
  Code.modify (fun s => { s with server := some server, ioService := some ioService })

/-- `name(args)` in a handler. -/
def construct (name : Bytes) (args : List (LuaValue Num)) : VmCode Num (LuaValue Num) := do
  let s ← Code.get
  luaGetFieldOf C (.table s.L.globals) name
  onL (fun L => { L with stack := args.reverse ++ L.stack })
  luaCall C args.length
  let s ← Code.get
  onL (LuaState.pop 1)
  pure (s.L.peek 1)

def constructAll : List (Bytes × List (LuaValue Num)) → VmCode Num (List (LuaValue Num))
  | [] => pure []
  | c :: cs => do
      let v ← construct C c.1 c.2
      let vs ← constructAll cs
      pure (v :: vs)

end Construct

section Objects

variable {Num : Type} [DecidableEq Num] [LuaNumber Num]

/-- The methods under a name: those of the last library that has it. -/
def methodsOf (ds : List LibDecl) (name : Bytes) : List (Bytes × Nat) :=
  ((lastNamed ds name).map (fun d => d.methods)).getD []

/-- A field of an object: the pointer to it, a method, or a field of its class. -/
def objectField (ds : List LibDecl) (name : Bytes) (t : TableRef) (obj : Nat) (k : LuaValue Num) :
    LuaValue Num :=
  if k = thisKey then .lightuserdata obj
  else if functionNamed (methodsOf ds name) k ≠ .nil then functionNamed (methodsOf ds name) k
  else classField (functionsOf ds name) t k

/-- A state in which the classes can be called. -/
structure Ready (ds : List LibDecl) (T : Bytes → TableRef) (s : LuaVM Num) : Prop where
  classes : Classes ds T s
  names : ∀ d ∈ ds, (s.L.heap.pairs s.L.globals).get (.string d.name) = .table (T d.name)
  context : (s.L.heap.pairs s.L.globals).get (.string (bytes "petrel_context")) = .userdata s.ctx
  pointers : 0 < s.nextObject

/-- A table is that of an object. -/
structure IsObject (ds : List LibDecl) (T : Bytes → TableRef) (s : LuaVM Num) (name : Bytes)
    (obj : Nat) (o : TableRef) : Prop where
  known : o < s.L.heap.next ∧ o ≠ s.registry ∧ o ≠ s.L.globals ∧ ∀ d ∈ ds, T d.name ≠ o
  metas : s.metatable (.table o) = some (T name)
  pairs : s.L.heap.pairs o = objectTable ⟨name, methodsOf ds name⟩ obj

/-! ## §2. One object. -/

variable {C : CFunctions Num} {s : LuaVM Num} {w : List (LuaValue Num)} {h : LuaHeap Num}

omit [LuaNumber Num] in
theorem luaLGetMetatable_put {name : Bytes} (hp : s.Lacks h (bytes "__index") s.registry) :
    luaLGetMetatable C name (s.put w h) =
      .returned () (s.put ((h.pairs s.registry).get (.string name) :: w) h) := by
  unfold luaLGetMetatable
  rw [Code.bind_apply, Code.get_apply, Outcome.andThen_returned]
  exact luaGetFieldOf_put hp name

theorem luaRawSetThis_put {t : TableRef} (x : LuaValue Num) (above w : List (LuaValue Num)) :
    luaRawSetThis (w.length + 1) (s.put (x :: (above ++ .table t :: w)) h) =
      .returned () (s.put (above ++ .table t :: w) (h.rawSet t thisKey x)) := by
  have hpeek := peekAbs_put (s := s) (h := h) (x :: above) (.table t) w
  rw [List.cons_append] at hpeek
  unfold luaRawSetThis onL LuaVM.mapL
  rw [Code.modify_apply]
  dsimp only
  rw [hpeek]
  rfl

omit [DecidableEq Num] [LuaNumber Num] in
theorem luaRemove_put (v : LuaValue Num) :
    luaRemove 1 (s.put (v :: w) h) = .returned () (s.put (v :: w).dropLast h) := by
  unfold luaRemove onL
  rw [Code.modify_apply]
  show Outcome.returned () (s.put ((v :: w).eraseIdx ((v :: w).length - 1)) h) = _
  rw [List.eraseIdx_eq_dropLast (by simp)]

/-- The state with one more object, whose class has the table `t`. -/
def LuaVM.withObject (s : LuaVM Num) (t o : TableRef) : LuaVM Num :=
  ({ s with objects := s.objects ++ [s.nextObject], nextObject := s.nextObject + 1 }
    |>.setMeta (.lightuserdata s.nextObject) (some t)).setMeta (.table o) (some t)

/-- The class's own part of the constructor of a library, which has only the
context, returns and leaves that as it is, as all those of the source do. -/
def LibDecl.Makes (C : CFunctions Num) (d : LibDecl) : Prop :=
  ∀ s : LuaVM Num, s.ioService ≠ none → ∃ k, C d.ctor s = .returned k s

omit [DecidableEq Num] [LuaNumber Num] in
theorem libraryNew_null (hio : s.ioService = none) : libraryNew s = .died .nullDereference s := by
  unfold libraryNew
  rw [Code.bind_apply, Code.get_apply, Outcome.andThen_returned, if_pos hio]
  rfl

omit [DecidableEq Num] [LuaNumber Num] in
theorem libraryNew_set (hio : s.ioService ≠ none) : libraryNew s = .returned () s := by
  unfold libraryNew
  rw [Code.bind_apply, Code.get_apply, Outcome.andThen_returned, if_neg hio]
  rfl

/-- Without an `io_service` there is no library object. -/
theorem libNew_null {d : LibDecl} {args : List (LuaValue Num)}
    (hglobals : s.metatable (.table s.L.globals) = none)
    (hctx : (h.pairs s.L.globals).get (.string (bytes "petrel_context")) = .userdata s.ctx)
    (hio : s.ioService = none) :
    ∃ u, libNew C d (s.put args h) = .died .nullDereference u := by
  have hctx' := luaGetFieldOf_put (C := C) (w := args) (lacks_of_none (h := h) hglobals)
    (bytes "petrel_context")
  rw [hctx] at hctx'
  have hdies : libraryNew (s.put args h) = .died .nullDereference (s.put args h) := libraryNew_null hio
  refine ⟨s.put args h, ?_⟩
  unfold libNew
  simp only [Code.bind_apply, Code.get_apply, Outcome.andThen_returned]
  refine (congrArg (Outcome.andThen · _) hctx').trans ?_
  rw [Outcome.andThen_returned, Code.bind_apply, Code.get_apply, Outcome.andThen_returned,
    if_neg (fun hne => hne rfl), Code.bind_apply, pop_put, Outcome.andThen_returned, Code.bind_apply, hdies]
  rfl

/-- **A run of `lib_new`** with an argument at least. -/
theorem libNew_put {d : LibDecl} {t : TableRef} {v : LuaValue Num} {args : List (LuaValue Num)}
    (hm : d.Makes C) (hio : s.ioService ≠ none)
    (hregistry : s.metatable (.table s.registry) = none)
    (hglobals : s.metatable (.table s.L.globals) = none)
    (hctx : (h.pairs s.L.globals).get (.string (bytes "petrel_context")) = .userdata s.ctx)
    (hapart : h.next ≠ s.registry) (hlt : t < h.next)
    (ht : (h.pairs s.registry).get (.string d.name) = .table t)
    (hnewindex : (h.pairs t).get (.string (bytes "__newindex")) = .nil) :
    ∃ frame, libNew C d (s.put (v :: args) h) =
      .returned 1 ((s.withObject t h.next).put (.table h.next :: frame)
        (h.alloc (objectTable d.toLibClass s.nextObject))) := by
  let this : LuaValue Num := .lightuserdata s.nextObject
  let s₁ : LuaVM Num := { s with objects := s.objects ++ [s.nextObject], nextObject := s.nextObject + 1 }
  let s₂ : LuaVM Num := s₁.setMeta this (some t)
  let w := v :: args
  have hctx' := luaGetFieldOf_put (C := C) (w := w) (lacks_of_none (h := h) hglobals)
    (bytes "petrel_context")
  rw [hctx] at hctx'
  -- the pointer has the metatable of the class
  have hmeta₁ : luaLGetMetatable C d.name (s₁.put (this :: w) h) = _ :=
    luaLGetMetatable_put (lacks_of_none hregistry)
  rw [ht] at hmeta₁
  have hset₁ : luaSetMetatable (w.length + 1) (s₁.put (.table t :: this :: w) h) =
      .returned () (s₂.put (this :: w) h) := luaSetMetatable_put t [] this w
  -- and so has the table of the object
  let h₁ : LuaHeap Num := h.alloc [(thisKey, this)]
  let s₃ : LuaVM Num := s₂.setMeta (.table h.next) (some t)
  have hpush := luaPushValue_put (s := s₂) (h := h.alloc []) [.table h.next] this w
  have hthis := luaRawSetThis_put (s := s₂) (h := h.alloc []) (t := h.next) this [] (this :: w)
  rw [LuaHeap.alloc_rawSet, LuaPairs.set_nil _ (by simp)] at hthis
  have hregistry₂ : s₂.metatable (.table s₂.registry) = none := by
    show Function.update s.metatable .lightuserdata (some t) (.table s.registry) = none
    rw [Function.update_of_ne (by simp)]
    exact hregistry
  have hmeta₂ : luaLGetMetatable C d.name (s₂.put (.table h.next :: this :: w) h₁) = _ :=
    luaLGetMetatable_put (lacks_of_none hregistry₂)
  rw [show (h₁.pairs s₂.registry).get (.string d.name) = .table t from
    (congrArg (LuaPairs.get · _) (LuaHeap.alloc_pairs_of_ne hapart.symm _)).trans ht] at hmeta₂
  have hset₂ : luaSetMetatable (w.length + 1 + 1) (s₂.put (.table t :: .table h.next :: this :: w) h₁) =
      .returned () (s₃.put (.table h.next :: this :: w) h₁) :=
    luaSetMetatable_put t [] (.table h.next) (this :: w)
  -- the methods
  have hlacks : s₃.Lacks h₁ (bytes "__newindex") h.next := by
    intro m hm
    obtain rfl := Option.some.inj ((Function.update_self (f := s₂.metatable) _ _).symm.trans hm)
    rw [LuaHeap.alloc_pairs_of_ne (Nat.ne_of_lt hlt)]
    exact ⟨Nat.ne_of_lt hlt, hnewindex⟩
  have hadd := addFields_put (C := C) (w := this :: w) hlacks [] d.methods
  have hobject : h₁.setPairs h.next (withFunctions (h₁.pairs h.next) d.methods) =
      h.alloc (objectTable d.toLibClass s.nextObject) := by
    rw [LuaHeap.alloc_pairs, LuaHeap.alloc_setPairs]
    unfold objectTable
    rw [LuaPairs.set_nil _ (by simp)]
    rfl
  rw [hobject] at hadd
  simp only [List.nil_append, List.singleton_append, List.length_cons] at hpush hthis hadd
  refine ⟨(this :: w.dropLast).dropLast, ?_⟩
  unfold libNew
  simp only [Code.bind_apply, Code.get_apply, Outcome.andThen_returned]
  refine (congrArg (Outcome.andThen · _) hctx').trans ?_
  rw [Outcome.andThen_returned, Code.bind_apply, Code.get_apply, Outcome.andThen_returned]
  obtain ⟨k, hctor⟩ := hm (s.put w h) hio
  have hlibrary : libraryNew (s.put w h) = .returned () (s.put w h) := libraryNew_set hio
  rw [if_neg (fun hne => hne rfl), Code.bind_apply, pop_put, Outcome.andThen_returned, Code.bind_apply,
    hlibrary, Outcome.andThen_returned, Code.bind_apply, hctor, Outcome.andThen_returned, Code.bind_apply,
    Code.modify_apply, Outcome.andThen_returned]
  show (onL (LuaState.push this) >>= _) (s₁.put w h) = _
  simp only [Code.bind_apply, Outcome.andThen_returned, push_put, luaGetTop_put, List.length_cons, hmeta₁,
    hset₁, newTable_put, hpush, hthis]
  refine (congrArg (Outcome.andThen · _) hmeta₂).trans ?_
  rw [Outcome.andThen_returned, Code.bind_apply, hset₂, Outcome.andThen_returned, Code.bind_apply, hadd,
    Outcome.andThen_returned, Code.bind_apply, luaRemove_put, Outcome.andThen_returned]
  show (luaRemove 1 >>= _) (s₃.put (.table h.next :: this :: w.dropLast) _) = _
  rw [Code.bind_apply, luaRemove_put]
  rfl

/-! ## §3. Any number of objects. -/

variable {P : Program Num} {n : Nat} {ds : List LibDecl} {T : Bytes → TableRef} {d : LibDecl}

/-- The state with one more object of a class. -/
def LuaVM.made (s : LuaVM Num) (ds : List LibDecl) (T : Bytes → TableRef) (name : Bytes) : LuaVM Num :=
  (s.withObject (T name) s.L.heap.next).put s.L.stack
    (s.L.heap.alloc (objectTable ⟨name, methodsOf ds name⟩ s.nextObject))

theorem made_metatable {o : MetaOwner} (hpointer : o ≠ .lightuserdata)
    (htable : o ≠ .table s.L.heap.next) (name : Bytes) :
    (s.made ds T name).metatable o = s.metatable o :=
  (Function.update_of_ne htable _ _).trans (Function.update_of_ne hpointer _ _)

theorem made_pairs {t : TableRef} (ht : t < s.L.heap.next) (name : Bytes) :
    (s.made ds T name).L.heap.pairs t = s.L.heap.pairs t :=
  LuaHeap.alloc_pairs_of_ne (Nat.ne_of_lt ht) _

omit [DecidableEq Num] [LuaNumber Num] in
theorem exists_lastNamed (hd : d ∈ ds) :
    ∃ d' ∈ ds, d'.name = d.name ∧ lastNamed ds d.name = some d' := by
  unfold lastNamed
  have hsome : (ds.reverse.find? (fun d' => d'.name = d.name)).isSome = true :=
    List.find?_isSome.mpr ⟨d, List.mem_reverse.mpr hd, decide_eq_true rfl⟩
  obtain ⟨d', hd'⟩ := Option.isSome_iff_exists.mp hsome
  exact ⟨d', List.mem_reverse.mp (List.mem_of_find?_eq_some hd'),
    by simpa using List.find?_some hd', hd'⟩

omit [LuaNumber Num] in
/-- No function has a reserved name. -/
theorem functionNamed_reserved (ds : List LibDecl) (name : Bytes) {event : Bytes}
    (hevent : bytes "__" <+: event) :
    functionNamed (functionsOf ds name) (.string event : LuaValue Num) = .nil := by
  unfold functionNamed
  have hnone : (functionsOf ds name).reverse.find?
      (fun f => (.string event : LuaValue Num) = .string f.1) = none := by
    refine List.find?_eq_none.mpr (fun f hf heq => ?_)
    have hname : event = f.1 := LuaValue.string.inj (of_decide_eq_true heq)
    unfold functionsOf at hf
    cases hfind : ds.find? (fun d => d.name = name) with
    | none =>
        rw [hfind] at hf
        simp at hf
    | some d =>
        rw [hfind] at hf
        exact d.reserved f (List.mem_append_left _ (List.mem_reverse.mp hf)) (hname ▸ hevent)
  rw [hnone]

omit [LuaNumber Num] in
/-- A call of a class runs the constructor of the last library of its name, with
the class as its first argument. -/
theorem Ready.callee (hr : Ready ds T s) (hd : d ∈ ds) (args : List (LuaValue Num)) :
    ∃ d' ∈ ds, d'.name = d.name ∧ lastNamed ds d.name = some d' ∧
      (s.put (args.reverse ++ .table (T d.name) :: s.L.stack) s.L.heap).callee (.table (T d.name))
        args.reverse = some (d'.new, args.reverse ++ [.table (T d.name)]) := by
  obtain ⟨d', hd', hname, hlast⟩ := exists_lastNamed hd
  have hcall := (hr.classes.reads (C := fun _ => pure 0) hd).2 args.reverse
  unfold constructorOf at hcall
  rw [hlast] at hcall
  exact ⟨d', hd', hname, hlast, hcall⟩

omit [LuaNumber Num] in
/-- A class is found under its name. -/
theorem Ready.find (hr : Ready ds T s) (hd : d ∈ ds) :
    luaGetFieldOf C (.table s.L.globals) d.name s =
      .returned () (s.put (.table (T d.name) :: s.L.stack) s.L.heap) := by
  have hget := luaGetFieldOf_put (C := C) (s := s) (w := s.L.stack)
    (lacks_of_none (h := s.L.heap) hr.classes.plain.2) d.name
  rw [hr.names d hd] at hget
  exact hget

/-- **A call of a class** makes one object. -/
theorem Ready.construct (hr : Ready ds T s) (hl : ∀ d ∈ ds, d.Linked P)
    (hm : ∀ d ∈ ds, d.Makes (P.functions n)) (hio : s.ioService ≠ none) (hd : d ∈ ds)
    (args : List (LuaValue Num)) :
    construct (P.functions (n + 1)) d.name args s =
      .returned (.table s.L.heap.next) (s.made ds T d.name) := by
  obtain ⟨d', hd', hname, hlast, hcallee⟩ := hr.callee hd args
  obtain ⟨hregistry, hglobals⟩ := hr.classes.plain
  obtain ⟨hlt, hreg, hglob⟩ := hr.classes.tables d hd
  have hnewindex : (s.L.heap.pairs (T d.name)).get (.string (bytes "__newindex")) = .nil := by
    rw [hr.classes.fields d hd]
    unfold classField
    have hkey : ¬ ((.string (bytes "__newindex") : LuaValue Num) = .string (bytes "__index") ∨
        (.string (bytes "__newindex") : LuaValue Num) = .string (bytes "__metatable")) := by
      rintro (heq | heq)
      · exact absurd (LuaValue.string.inj heq) (by decide)
      · exact absurd (LuaValue.string.inj heq) (by decide)
    rw [if_neg hkey, functionNamed_reserved ds d.name (by decide)]
  have hrun : ∃ frame, P.functions (n + 1) d'.new
      (s.put (args.reverse ++ [.table (T d.name)]) s.L.heap) =
        .returned 1 ((s.withObject (T d.name) s.L.heap.next).put (.table s.L.heap.next :: frame)
          (s.L.heap.alloc (objectTable ⟨d.name, methodsOf ds d.name⟩ s.nextObject))) := by
    obtain ⟨v, rest, hargs⟩ := List.exists_cons_of_ne_nil
      (show args.reverse ++ [LuaValue.table (T d.name)] ≠ [] by simp)
    have hentry : (s.L.heap.pairs s.registry).get (.string d'.name) = .table (T d.name) := by
      rw [hname]
      exact hr.classes.entries d hd
    obtain ⟨frame, hframe⟩ := libNew_put (v := v) (hm d' hd') hio hregistry hglobals
      hr.context (Nat.ne_of_gt hr.classes.known.1) hlt hentry hnewindex
    have hmethods : objectTable ⟨d.name, methodsOf ds d.name⟩ s.nextObject =
        (objectTable d'.toLibClass s.nextObject : LuaPairs Num) := by
      unfold methodsOf
      rw [hlast]
      rfl
    refine ⟨frame, ?_⟩
    rw [hargs, hmethods]
    exact (congrFun ((hl d' hd').constructs _) _).trans hframe
  obtain ⟨frame, hrun⟩ := hrun
  have hcall := luaCall_put hcallee hrun
  rw [List.length_reverse] at hcall
  unfold Petrel.construct
  rw [Code.bind_apply, Code.get_apply, Outcome.andThen_returned, Code.bind_apply, hr.find hd,
    Outcome.andThen_returned, Code.bind_apply]
  refine (congrArg (Outcome.andThen · _) hcall).trans ?_
  rfl

/-- A call of a class before the first request. -/
theorem Ready.construct_null (hr : Ready ds T s) (hl : ∀ d ∈ ds, d.Linked P) (hio : s.ioService = none)
    (hd : d ∈ ds) (args : List (LuaValue Num)) :
    ∃ u, Petrel.construct (P.functions (n + 1)) d.name args s = .died .nullDereference u := by
  obtain ⟨d', hd', -, -, hcallee⟩ := hr.callee hd args
  obtain ⟨u, hnull⟩ : ∃ u, libNew (P.functions n) d'
      (s.put (args.reverse ++ [.table (T d.name)]) s.L.heap) = .died .nullDereference u :=
    libNew_null hr.classes.plain.2 hr.context hio
  have hrun := (congrFun ((hl d' hd').constructs (P.functions n)) _).trans hnull
  have hcall := luaCall_died (C := P.functions (n + 1)) hcallee hrun
  rw [List.length_reverse] at hcall
  refine ⟨u, ?_⟩
  unfold Petrel.construct
  rw [Code.bind_apply, Code.get_apply, Outcome.andThen_returned, Code.bind_apply, hr.find hd,
    Outcome.andThen_returned, Code.bind_apply]
  refine (congrArg (Outcome.andThen · _) hcall).trans ?_
  rfl

/-- The classes stay as they are. -/
theorem Ready.made (hr : Ready ds T s) (name : Bytes) : Ready ds T (s.made ds T name) := by
  obtain ⟨hregistry, hglobals⟩ := hr.classes.known
  have htable : ∀ t, t < s.L.heap.next →
      (s.made ds T name).metatable (.table t) = s.metatable (.table t) := by
    intro t ht
    refine made_metatable (by simp) (fun heq => Nat.ne_of_lt ht (MetaOwner.table.inj heq)) _
  have hclasses : Classes ds T (s.made ds T name) := by
    refine ⟨⟨hr.classes.apart, ⟨Nat.lt_succ_of_lt hregistry, Nat.lt_succ_of_lt hglobals⟩,
      ⟨(htable _ hregistry).trans hr.classes.plain.1, (htable _ hglobals).trans hr.classes.plain.2⟩,
      ?fresh⟩, hr.classes.distinct, ?tables, ?entries, ?fields, ?metas⟩
    case fresh =>
      intro t ht
      have hne : MetaOwner.table t ≠ .table s.L.heap.next :=
        fun heq => Nat.ne_of_gt (Nat.lt_of_succ_le ht) (MetaOwner.table.inj heq)
      rw [made_metatable (by simp) hne]
      exact hr.classes.fresh t (Nat.le_of_succ_le ht)
    case tables =>
      intro d' hd'
      obtain ⟨hlt, hne⟩ := hr.classes.tables d' hd'
      exact ⟨Nat.lt_succ_of_lt hlt, hne⟩
    case entries =>
      intro d' hd'
      show ((s.made ds T name).L.heap.pairs s.registry).get _ = _
      rw [made_pairs hregistry]
      exact hr.classes.entries d' hd'
    case fields =>
      intro d' hd' k
      rw [made_pairs (hr.classes.tables d' hd').1]
      exact hr.classes.fields d' hd' k
    case metas =>
      intro d' hd'
      obtain ⟨m, hm, hlt, hreg, hglob, hnot, hpairs⟩ := hr.classes.metas d' hd'
      refine ⟨m, ?_, Nat.lt_succ_of_lt hlt, hreg, hglob, hnot, ?_⟩
      · rw [htable _ (hr.classes.tables d' hd').1]
        exact hm
      · rw [made_pairs hlt]
        exact hpairs
  refine ⟨hclasses, ?_, ?_, Nat.succ_pos _⟩
  · intro d' hd'
    show ((s.made ds T name).L.heap.pairs s.L.globals).get _ = _
    rw [made_pairs hglobals]
    exact hr.names d' hd'
  · show ((s.made ds T name).L.heap.pairs s.L.globals).get _ = _
    rw [made_pairs hglobals]
    exact hr.context

/-- The new table is that of the object. -/
theorem Ready.isObject (hr : Ready ds T s) (name : Bytes) :
    IsObject ds T (s.made ds T name) name s.nextObject s.L.heap.next := by
  refine ⟨⟨Nat.lt_succ_self _, Nat.ne_of_gt hr.classes.known.1, Nat.ne_of_gt hr.classes.known.2, ?_⟩,
    Function.update_self .., LuaHeap.alloc_pairs _ _⟩
  exact fun d' hd' => Nat.ne_of_lt (hr.classes.tables d' hd').1

/-- The objects there were stay as they are. -/
theorem IsObject.made {name : Bytes} {obj : Nat} {o : TableRef} (h : IsObject ds T s name obj o)
    (name' : Bytes) : IsObject ds T (s.made ds T name') name obj o := by
  obtain ⟨hlt, hreg, hglob, hnot⟩ := h.known
  refine ⟨⟨Nat.lt_succ_of_lt hlt, hreg, hglob, hnot⟩, ?_, ?_⟩
  · rw [made_metatable (by simp) (fun heq => Nat.ne_of_lt hlt (MetaOwner.table.inj heq))]
    exact h.metas
  · rw [made_pairs hlt]
    exact h.pairs

/-- What Lua reads of an object, and what a method runs on. -/
theorem IsObject.reads (hc : Classes ds T s) (hd : d ∈ ds) {obj : Nat} {o : TableRef}
    (h : IsObject ds T s d.name obj o) :
    (∀ k, luaIndex C maxTagLoop (.table o) k s =
      .returned (objectField ds d.name (T d.name) obj k) s) ∧
    (0 < obj → ∀ m, libMethod m s.L.heap (.table o) = .object obj) := by
  have hraw : ∀ k, (s.L.heap.pairs o).get k =
      if functionNamed (methodsOf ds d.name) k = .nil then
        (if k = thisKey then .lightuserdata obj else .nil)
      else functionNamed (methodsOf ds d.name) k := by
    intro k
    rw [h.pairs]
    show (withFunctions (LuaPairs.set [] thisKey (.lightuserdata obj)) (methodsOf ds d.name)).get k = _
    rw [withFunctions_get]
    by_cases hk : k = thisKey
    · rw [hk, LuaPairs.get_set_self _ _ (by simp), if_pos rfl]
    · rw [LuaPairs.get_set_of_ne _ (by simp) hk, if_neg hk]
      rfl
  have hthis : (functionNamed (methodsOf ds d.name) thisKey : LuaValue Num) = .nil := by
    unfold functionNamed
    rw [List.find?_eq_none.mpr (by simp [thisKey])]
  have hindex : s.metamethod (.table o) (bytes "__index") = .table (T d.name) := by
    unfold LuaVM.metamethod
    rw [show (LuaValue.table o : LuaValue Num).metaOwner = .table o from rfl, h.metas]
    show (s.L.heap.pairs (T d.name)).get _ = _
    rw [hc.fields d hd]
    exact if_pos (.inl rfl)
  constructor
  · intro k
    unfold objectField
    by_cases hk : k = thisKey
    · have hget : (s.L.heap.pairs o).get k = .lightuserdata obj := by
        rw [hraw, hk, hthis, if_pos rfl, if_pos rfl]
      rw [if_pos hk, ← hget]
      exact luaIndex_raw 99 (by simp [hget])
    · rw [if_neg hk]
      by_cases hmethod : functionNamed (methodsOf ds d.name) k = .nil
      · have hget : (s.L.heap.pairs o).get k = .nil := by
          rw [hraw, if_pos hmethod, if_neg hk]
        rw [if_neg (not_not.mpr hmethod), show maxTagLoop = 98 + 1 + 1 from rfl,
          luaIndex_meta _ hget hindex]
        exact (hc.reads hd).1 98 k
      · have hget : (s.L.heap.pairs o).get k = functionNamed (methodsOf ds d.name) k := by
          rw [hraw, if_neg hmethod]
        rw [if_pos hmethod, ← hget]
        exact luaIndex_raw 99 (by rwa [hget])
  · intro hobj m
    unfold libMethod
    dsimp only
    rw [hraw, hthis, if_pos rfl, if_pos rfl]
    exact if_pos (Nat.ne_of_gt hobj)

/-- What a run of constructor calls has made: the tables `os` of as many objects,
numbered from `next` on. -/
structure Constructed (ds : List LibDecl) (T : Bytes → TableRef) (s u : LuaVM Num)
    (calls : List (LibDecl × List (LuaValue Num))) (os : List TableRef) : Prop where
  ready : Ready ds T u
  stack : u.L.stack = s.L.stack
  objects : u.objects = s.objects ++ List.range' s.nextObject calls.length
  fresh : ∀ o ∈ os, s.L.heap.next ≤ o
  nodup : os.Nodup
  kept : ∀ name obj o, IsObject ds T s name obj o → IsObject ds T u name obj o
  each : List.Forall₂ (fun c o => c.1.1 ∈ ds ∧ 0 < c.2 ∧ IsObject ds T u c.1.1.name c.2 o)
    (calls.zip (List.range' s.nextObject calls.length)) os

/-- **A run of constructor calls.** -/
theorem Ready.constructAll (hr : Ready ds T s) (hl : ∀ d ∈ ds, d.Linked P)
    (hm : ∀ d ∈ ds, d.Makes (P.functions n)) (hio : s.ioService ≠ none)
    {calls : List (LibDecl × List (LuaValue Num))} (hcalls : ∀ c ∈ calls, c.1 ∈ ds) :
    ∃ os u, constructAll (P.functions (n + 1)) (calls.map (fun c => (c.1.name, c.2))) s =
      .returned (os.map LuaValue.table) u ∧ Constructed ds T s u calls os := by
  induction calls generalizing s with
  | nil => exact ⟨[], s, rfl, hr, rfl, by simp, by simp, List.nodup_nil, fun _ _ _ h => h, .nil⟩
  | cons c calls ih =>
      have hc := hcalls c List.mem_cons_self
      obtain ⟨os, u, hrun, hu⟩ := ih (hr.made c.1.name) hio
        (fun c' hc' => hcalls c' (List.mem_cons_of_mem _ hc'))
      refine ⟨s.L.heap.next :: os, u, ?_, hu.ready, hu.stack, ?_, ?_, ?_, ?_, ?_⟩
      · unfold Petrel.constructAll
        rw [List.map_cons]
        dsimp only
        rw [Code.bind_apply, hr.construct hl hm hio hc, Outcome.andThen_returned, Code.bind_apply, hrun]
        rfl
      · rw [hu.objects, List.length_cons, List.range'_succ]
        exact List.append_assoc _ _ _
      · intro o ho
        rcases List.mem_cons.mp ho with rfl | ho
        · exact Nat.le_refl _
        · exact Nat.le_of_succ_le (hu.fresh o ho)
      · exact List.nodup_cons.mpr ⟨fun hin => Nat.lt_irrefl _ (hu.fresh _ hin), hu.nodup⟩
      · exact fun name obj o h => hu.kept name obj o (h.made c.1.name)
      · rw [List.length_cons, List.range'_succ]
        exact .cons ⟨hc, hr.pointers, hu.kept _ _ _ (hr.isObject c.1.name)⟩ hu.each

/-! ## §4. From `load_libs` on. -/

omit [LuaNumber Num] in
/-- The library context makes a state with the libraries ready. -/
theorem Opened.installContext {G : LuaValue Num → Prop} {s₀ : LuaVM Num} (ho : Opened G s₀ s ds T)
    (hpos : 0 < s₀.nextObject) (hname : ∀ d ∈ ds, d.name ≠ bytes "petrel_context") (ctx : Nat) :
    ∃ v, installContext C ctx s = .returned () v ∧ Ready ds T v ∧ v.L.stack = s.L.stack ∧
      v.ioService = none ∧ v.objects = [] ∧ v.nextObject = s₀.nextObject := by
  obtain ⟨hregistry, hglobals⟩ := ho.classes.plain
  let s₁ : LuaVM Num := { s with ctx := ctx, server := none, ioService := none, objects := [] }
  let h' := s.L.heap.rawSet s.L.globals (.string (bytes "petrel_context")) (.userdata ctx)
  have hset := luaSetFieldOf_put (C := C) (s := s₁) (w := s.L.stack) (x := .userdata ctx)
    (lacks_of_none (h := s.L.heap) (t := s.L.globals) hglobals) (bytes "petrel_context")
  have hpairs : ∀ t, t ≠ s.L.globals → h'.pairs t = s.L.heap.pairs t :=
    fun t ht => LuaHeap.rawSet_pairs_of_ne _ ht _ _
  have hclasses : Classes ds T (s₁.put s.L.stack h') := by
    refine ⟨⟨ho.classes.apart, ho.classes.known, ho.classes.plain, ho.classes.fresh⟩, ho.classes.distinct,
      ho.classes.tables, ?_, ?_, ?_⟩
    · intro d hd
      show (h'.pairs s.registry).get _ = _
      rw [hpairs _ ho.classes.apart]
      exact ho.classes.entries d hd
    · intro d hd k
      show (h'.pairs (T d.name)).get k = _
      rw [hpairs _ (ho.classes.tables d hd).2.2]
      exact ho.classes.fields d hd k
    · intro d hd
      obtain ⟨m, hm, hlt, hreg, hglob, hnot, hps⟩ := ho.classes.metas d hd
      exact ⟨m, hm, hlt, hreg, hglob, hnot, (hpairs m hglob).trans hps⟩
  refine ⟨s₁.put s.L.stack h', hset, ⟨hclasses, ?_, ?_, ?_⟩, rfl, rfl, rfl, ho.context.2.2⟩
  · intro d hd
    show (h'.pairs s.L.globals).get _ = _
    rw [LuaHeap.get_rawSet _ _ _ (by simp), if_neg (by simpa using hname d hd)]
    exact ho.names d hd
  · show (h'.pairs s.L.globals).get _ = _
    rw [LuaHeap.get_rawSet _ _ _ (by simp), if_pos rfl]
    rfl
  · show 0 < s.nextObject
    rw [ho.context.2.2]
    exact hpos

omit [LuaNumber Num] in
/-- A request changes the pointers of the context alone. -/
theorem Ready.enter (hr : Ready ds T s) (server ioService : Option Nat) :
    Ready ds T { s with server := server, ioService := ioService } :=
  ⟨⟨⟨hr.classes.apart, hr.classes.known, hr.classes.plain, hr.classes.fresh⟩, hr.classes.distinct,
    hr.classes.tables, hr.classes.entries, hr.classes.fields, hr.classes.metas⟩,
    hr.names, hr.context, hr.pointers⟩

/-- **OBJECTS OF THE CLASSES.**  After `load_libs`, the install of the context and
the beginning of a request, any calls of the classes, with any arguments, make
as many objects: they are in `p_objects`, one for each call in order, each has a
table of its own, and the stack is as before.  Of each object Lua reads the
pointer, the methods of the last library of its name and the functions of the
first, and every method called on it runs on it.  Before the first request the
first call reads the null pointer to the `io_service`. -/
theorem objects_constructed {G : LuaValue Num → Prop} {builtin libs : List LibDecl} {t : LuaVM Num}
    (hl : ∀ d ∈ builtin ++ libs, d.Linked P) (ht : ∀ d ∈ builtin ++ libs, d.Tame (P.functions n) G)
    (hG : ∀ d ∈ builtin ++ libs, ¬ G (.string d.name))
    (hm : ∀ d ∈ builtin ++ libs, d.Makes (P.functions n))
    (hs : s.Fresh (builtin ++ libs)) (hpos : 0 < s.nextObject)
    (hname : ∀ d ∈ builtin ++ libs, d.name ≠ bytes "petrel_context")
    (hload : loadLibs (P.functions (n + 1)) (builtin.map LibDecl.reg) (libs.map LibDecl.reg) s =
      .returned () t) (ctx server ioService : Nat) (calls : List (LibDecl × List (LuaValue Num)))
    (hcalls : ∀ c ∈ calls, c.1 ∈ builtin ++ libs) :
    let C := P.functions (n + 1)
    let objects := List.range' s.nextObject calls.length
    let run := constructAll C (calls.map (fun c : LibDecl × List (LuaValue Num) => (c.1.name, c.2)))
    (∃ (T : Bytes → TableRef) (os : List TableRef) (u : LuaVM Num),
      (installContext C ctx >>= fun _ => enterRequest server ioService >>= fun _ => run) t =
          .returned (os.map LuaValue.table) u ∧
      u.objects = objects ∧ os.Nodup ∧ u.L.stack = t.L.stack ∧
      List.Forall₂ (fun c o =>
        (∀ k, luaIndex C maxTagLoop (.table o) k u =
          .returned (objectField (builtin ++ libs) c.1.1.name (T c.1.1.name) c.2 k) u) ∧
        ∀ m, libMethod m u.L.heap (.table o) = .object c.2) (calls.zip objects) os) ∧
    (calls ≠ [] → ∃ u, (installContext C ctx >>= fun _ => run) t = .died .nullDereference u) := by
  intro C objects run
  obtain ⟨T, ho⟩ : ∃ T, Opened G s t (builtin ++ libs) T := by
    rcases loadLibs_cases builtin libs hl n ht hG hs with ⟨-, T, t', hreturned, ho⟩ | ⟨-, t', hdied⟩
    · obtain ⟨-, rfl⟩ := Outcome.returned.inj (hreturned.symm.trans hload)
      exact ⟨T, ho⟩
    · cases hdied.symm.trans hload
  obtain ⟨v, hv, hready, hstack, hnull, hempty, hnext⟩ := ho.installContext (C := C) hpos hname ctx
  constructor
  · obtain ⟨os, u, hrun, hu⟩ := (hready.enter (some server) (some ioService)).constructAll (n := n) hl hm
      (by simp) hcalls
    have hobjects : u.objects = v.objects ++ List.range' v.nextObject calls.length := hu.objects
    have heach := hu.each
    rw [hempty, hnext, List.nil_append] at hobjects
    rw [show ({ v with server := some server, ioService := some ioService } : LuaVM Num).nextObject =
      s.nextObject from hnext] at heach
    refine ⟨T, os, u, ?_, hobjects, hu.nodup, hu.stack.trans hstack, ?_⟩
    · rw [Code.bind_apply, hv]
      exact hrun
    · refine heach.imp ?_
      rintro c o ⟨hd, hobj, hisObject⟩
      obtain ⟨hreads, hmethods⟩ := hisObject.reads (C := C) hu.ready.classes hd
      exact ⟨hreads, hmethods hobj⟩
  · intro hne
    obtain ⟨c, cs, rfl⟩ := List.exists_cons_of_ne_nil hne
    obtain ⟨u, hu⟩ := hready.construct_null (n := n) hl hnull (hcalls c List.mem_cons_self) c.2
    refine ⟨u, ?_⟩
    rw [Code.bind_apply, hv, Outcome.andThen_returned]
    show constructAll C _ v = _
    rw [List.map_cons]
    unfold Petrel.constructAll
    dsimp only
    rw [Code.bind_apply, hu]
    rfl

theorem hash_makes (n : Nat) : ∀ d ∈ [hashLib] ++ [otherHash], d.Makes (hashProgram.functions (n + 1)) := by
  intro d hd s _
  rcases List.mem_cons.mp hd with rfl | hd
  · exact ⟨0, rfl⟩
  · obtain rfl := List.mem_singleton.mp hd
    exact ⟨0, rfl⟩

/-- Two objects of the class `hash`. -/
theorem objects_constructed_hash :
    let C := hashProgram.functions (1 + 1)
    let calls : List (LibDecl × List (LuaValue Int)) := [(hashLib, []), (otherHash, [.number 5])]
    let run := constructAll C (calls.map (fun c : LibDecl × List (LuaValue Int) => (c.1.name, c.2)))
    ∃ t, loadLibs C [hashLib.reg] [otherHash.reg] {} = .returned () t ∧
      (∃ (T : Bytes → TableRef) (os : List TableRef) (u : LuaVM Int),
        (installContext C 0 >>= fun _ => enterRequest 1 1 >>= fun _ => run) t =
            .returned (os.map LuaValue.table) u ∧
        u.objects = List.range' 1 calls.length ∧ os.Nodup ∧ u.L.stack = t.L.stack ∧
        List.Forall₂ (fun c o =>
          (∀ k, luaIndex C maxTagLoop (.table o) k u =
            .returned (objectField ([hashLib] ++ [otherHash]) c.1.1.name (T c.1.1.name) c.2 k) u) ∧
          ∀ m, libMethod m u.L.heap (.table o) = .object c.2)
          (calls.zip (List.range' 1 calls.length)) os) ∧
      ∃ u, (installContext C 0 >>= fun _ => run) t = .died .nullDereference u := by
  intro C calls run
  have hreturns : ∃ t, loadLibs C [hashLib.reg] [otherHash.reg] {} = .returned () t := by
    rcases loadLibs_cases [hashLib] [otherHash] hashProgram_linked 1 (hash_tame 0) hash_names hash_fresh with
      ⟨-, T, t, hreturned, -⟩ | ⟨⟨d, hd, hnone⟩, -⟩
    · exact ⟨t, hreturned⟩
    · exact absurd hnone (by revert d; decide)
  obtain ⟨t, ht⟩ := hreturns
  obtain ⟨hmade, hnull⟩ := objects_constructed hashProgram_linked (hash_tame 0) hash_names (hash_makes 0)
    hash_fresh (by decide) (by decide) ht 0 1 1 calls (by simp [calls])
  exact ⟨t, ht, hmade, hnull (by simp [calls])⟩

end Objects

end Petrel
