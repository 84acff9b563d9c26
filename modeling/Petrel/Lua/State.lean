/-
  Petrel.Lua.State — the Lua values, heap and C API calls the server uses.

  The Lua library is not part of the repository, so its number type and the
  conversions of numbers are a parameter (`LuaNumber`).  A table is a list of
  pairs in the order `lua_next` visits them.  Metamethods are attributes of
  values: what `__index` and `__tostring` give is part of the heap, so that
  a value may carry any metatable.

  The server calls the API outside of `lua_pcall`.  An error raised there
  has no handler: Lua calls its panic function and the process dies.
-/

import Petrel.Core.Bytes
import Petrel.Framework.Code

namespace Petrel

open Framework

/-! ## §1. Values and heap. -/

/-- What the server uses of Lua's number type. -/
class LuaNumber (Num : Type) where
  ofInt : Int → Num                -- `lua_pushinteger`
  toInt : Num → Int                -- `lua_tointeger`
  toText : Num → Bytes             -- the string form of a number
  ofText : Bytes → Option Num      -- the number a string converts to, if any

/-- Integral numbers, with their decimal notation. -/
instance : LuaNumber Int where
  ofInt n := n
  toInt n := n
  toText n := (if n < 0 then [byte '-'] else []) ++ (Nat.toDigits 10 n.natAbs).map byte
  ofText s := (String.ofList (s.map (fun b => Char.ofNat b.toNat))).toInt?

/-- The address of a table. -/
abbrev TableRef := Nat

inductive LuaValue (Num : Type) where
  | nil
  | boolean (b : Bool)
  | number (n : Num)
  | string (s : Bytes)
  | table (t : TableRef)
  | function (f : Nat)
  | lightuserdata (p : Nat)        -- a C pointer, 0 being null
  | userdata (u : Nat)
  deriving DecidableEq

/-- How a call of a Lua function ends. -/
inductive CallResult (Num : Type) where
  | returned (v : LuaValue Num)
  | raised (v : LuaValue Num)

/-- The pairs of a table in the order of `lua_next`. -/
abbrev LuaPairs (Num : Type) := List (LuaValue Num × LuaValue Num)

structure LuaHeap (Num : Type) where
  pairs : TableRef → LuaPairs Num := fun _ => []
  indexMeta : LuaValue Num → Option (LuaValue Num → CallResult Num) := fun _ => none
  toStringMeta : LuaValue Num → Option (CallResult Num) := fun _ => none
  next : TableRef := 0

/-- A `lua_State`: the stack from the top down, the heap, and the table of
the globals. -/
structure LuaState (Num : Type) where
  stack : List (LuaValue Num) := []
  heap : LuaHeap Num := {}
  globals : TableRef := 0

/-- Why the process dies. -/
inductive Fault where
  | panic            -- a Lua error outside of any protected call
  | nullDereference  -- a null pointer is dereferenced
  | badCall          -- an empty `std::function` is called
  | badIndex         -- an index outside of a container
  | uncaught         -- an exception leaves a fiber
  | assertion        -- a `BOOST_ASSERT` fails
  deriving DecidableEq

/-! ## §2. Values. -/

section Values

variable {Num : Type} [LuaNumber Num]

/-- `lua_tostring`: null for what is neither a string nor a number. -/
def LuaValue.toText : LuaValue Num → Option Bytes
  | .string s => some s
  | .number n => some (LuaNumber.toText n)
  | _ => none

/-- `lua_isstring`. -/
def LuaValue.isString (v : LuaValue Num) : Bool := v.toText.isSome

/-- The number a value is or converts to. -/
def LuaValue.toNumber : LuaValue Num → Option Num
  | .number n => some n
  | .string s => LuaNumber.ofText s
  | _ => none

/-- `lua_isnumber`. -/
def LuaValue.isNumber (v : LuaValue Num) : Bool := v.toNumber.isSome

/-- `lua_tointeger`: 0 for what is no number. -/
def LuaValue.toInteger (v : LuaValue Num) : Int := (v.toNumber.map LuaNumber.toInt).getD 0

def LuaValue.isFunction : LuaValue Num → Bool
  | .function _ => true
  | _ => false

def LuaValue.isTable : LuaValue Num → Bool
  | .table _ => true
  | _ => false

/-- What `lua_tostring` leaves in the stack slot: a number becomes a string. -/
def LuaValue.converted (v : LuaValue Num) : LuaValue Num :=
  match v.toText with
  | some s => .string s
  | none => v

end Values

/-! ## §3. Tables. -/

section Tables

variable {Num : Type} [DecidableEq Num]

/-- The value of a key in a table. -/
def LuaPairs.get (ps : LuaPairs Num) (k : LuaValue Num) : LuaValue Num :=
  ((ps.find? (fun p => p.1 = k)).map Prod.snd).getD .nil

/-- Assign a key: `nil` removes it. -/
def LuaPairs.set (ps : LuaPairs Num) (k v : LuaValue Num) : LuaPairs Num :=
  if v = .nil then ps.filter (fun p => p.1 ≠ k)
  else if ps.any (fun p => p.1 = k) then ps.map (fun p => if p.1 = k then (k, v) else p)
  else ps ++ [(k, v)]

/-- The pairs after a key; none where the key is not in the table. -/
def LuaPairs.after (k : LuaValue Num) : LuaPairs Num → Option (LuaPairs Num)
  | [] => none
  | p :: ps => if p.1 = k then some ps else LuaPairs.after k ps

/-- `lua_next`: the pair after a key, starting over from `nil`.  The outer
option is the error for a key that is not in the table, the inner one the
end of the walk. -/
def LuaPairs.next (ps : LuaPairs Num) (k : LuaValue Num) : Option (Option (LuaValue Num × LuaValue Num)) :=
  if k = .nil then some ps.head? else (ps.after k).map List.head?

/-- Assigning a key changes what the table has for this key only. -/
theorem LuaPairs.mem_set {ps : LuaPairs Num} {k v : LuaValue Num} (hv : v ≠ .nil)
    (p : LuaValue Num × LuaValue Num) : p ∈ ps.set k v ↔ p = (k, v) ∨ p ∈ ps ∧ p.1 ≠ k := by
  unfold LuaPairs.set
  rw [if_neg hv]
  by_cases hany : ps.any (fun p => p.1 = k) = true
  · rw [if_pos hany, List.mem_map]
    obtain ⟨q, hq, hqk⟩ := List.any_eq_true.mp hany
    constructor
    · rintro ⟨r, hr, rfl⟩
      by_cases hrk : r.1 = k
      · exact .inl (if_pos hrk)
      · rw [if_neg hrk]
        exact .inr ⟨hr, hrk⟩
    · rintro (rfl | ⟨hp, hpk⟩)
      · exact ⟨q, hq, if_pos (of_decide_eq_true hqk)⟩
      · exact ⟨p, hp, if_neg hpk⟩
  · rw [if_neg hany, List.mem_append, List.mem_singleton, or_comm]
    refine or_congr_right ⟨fun hp => ⟨hp, fun hpk => hany ?_⟩, fun hp => hp.1⟩
    exact List.any_eq_true.mpr ⟨p, hp, decide_eq_true hpk⟩

/-- A table keeps one pair for each key. -/
theorem LuaPairs.nodup_set {ps : LuaPairs Num} (h : (ps.map Prod.fst).Nodup) {k v : LuaValue Num}
    (hv : v ≠ .nil) : ((ps.set k v).map Prod.fst).Nodup := by
  unfold LuaPairs.set
  rw [if_neg hv]
  by_cases hany : ps.any (fun p => p.1 = k) = true
  · -- the pair is replaced in its place
    rw [if_pos hany, List.map_map]
    have hkeys : (Prod.fst ∘ fun p : LuaValue Num × LuaValue Num => if p.1 = k then (k, v) else p) =
        Prod.fst := by
      funext p
      by_cases hpk : p.1 = k
      · simp [hpk]
      · simp [hpk]
    rw [hkeys]
    exact h
  · rw [if_neg hany, List.map_append, List.nodup_append]
    refine ⟨h, List.nodup_singleton _, ?_⟩
    intro a ha b hb heq
    obtain ⟨p, hp, rfl⟩ := List.mem_map.mp ha
    refine hany (List.any_eq_true.mpr ⟨p, hp, decide_eq_true ?_⟩)
    rw [heq]
    exact List.mem_singleton.mp hb

/-- Reading back what has been assigned. -/
theorem LuaPairs.get_set_self (ps : LuaPairs Num) (k : LuaValue Num) {v : LuaValue Num}
    (hv : v ≠ .nil) : (ps.set k v).get k = v := by
  unfold LuaPairs.set LuaPairs.get
  rw [if_neg hv]
  by_cases hany : ps.any (fun p => p.1 = k) = true
  · rw [if_pos hany, List.find?_map]
    have hfound := List.find?_isSome.mpr (List.any_eq_true.mp hany)
    obtain ⟨p, hp⟩ := Option.isSome_iff_exists.mp hfound
    have hpk : p.1 = k := by simpa using List.find?_some hp
    have hcomp : ((fun p : LuaValue Num × LuaValue Num => decide (p.1 = k)) ∘
        fun p => if p.1 = k then (k, v) else p) = fun p => decide (p.1 = k) := by
      funext q
      by_cases hq : q.1 = k
      · simp [hq]
      · simp [hq]
    rw [hcomp, hp]
    simp [hpk]
  · have hnone : ps.find? (fun p => p.1 = k) = none := by
      rw [List.find?_eq_none]
      exact fun p hp hpk => hany (List.any_eq_true.mpr ⟨p, hp, hpk⟩)
    rw [if_neg hany, List.find?_append, hnone]
    simp

/-- Assigning a key leaves the values of the other keys. -/
theorem LuaPairs.get_set_of_ne (ps : LuaPairs Num) {k k' v : LuaValue Num} (hv : v ≠ .nil)
    (hne : k' ≠ k) : (ps.set k v).get k' = ps.get k' := by
  unfold LuaPairs.set LuaPairs.get
  rw [if_neg hv]
  by_cases hany : ps.any (fun p => p.1 = k) = true
  · rw [if_pos hany, List.find?_map]
    have hcomp : ((fun p : LuaValue Num × LuaValue Num => decide (p.1 = k')) ∘
        fun p => if p.1 = k then (k, v) else p) = fun p => decide (p.1 = k') := by
      funext q
      by_cases hq : q.1 = k
      · simp [hq]
      · simp [hq]
    rw [hcomp]
    cases hfind : ps.find? (fun p => p.1 = k') with
    | none => rfl
    | some p =>
        have hpk : p.1 = k' := by simpa using List.find?_some hfind
        simp [hpk, hne]
  · rw [if_neg hany, List.find?_append]
    simp [Ne.symm hne]

/-- Behind a pair the walk finds at least what is behind it in the table. -/
theorem after_suffix {ps pre post : LuaPairs Num} {k v : LuaValue Num}
    (hsplit : ps = pre ++ (k, v) :: post) : ∃ qs, ps.after k = some qs ∧ post <:+ qs := by
  subst hsplit
  induction pre with
  | nil =>
      refine ⟨post, ?_, List.suffix_refl post⟩
      show (if k = k then some post else LuaPairs.after k post) = some post
      rw [if_pos rfl]
  | cons p pre ih =>
      show ∃ qs, (if p.1 = k then some (pre ++ (k, v) :: post)
        else LuaPairs.after k (pre ++ (k, v) :: post)) = some qs ∧ post <:+ qs
      by_cases hp : p.1 = k
      · rw [if_pos hp]
        exact ⟨_, rfl, List.IsSuffix.trans (List.suffix_cons (k, v) post) (List.suffix_append pre _)⟩
      · rw [if_neg hp]
        exact ih

theorem after_isSuffix {ps qs : LuaPairs Num} {k : LuaValue Num} (h : ps.after k = some qs) :
    qs <:+ ps := by
  induction ps with
  | nil => cases h
  | cons p ps ih =>
      change (if p.1 = k then some ps else LuaPairs.after k ps) = some qs at h
      by_cases hp : p.1 = k
      · rw [if_pos hp] at h
        obtain rfl := Option.some.inj h
        exact List.suffix_cons p ps
      · rw [if_neg hp] at h
        exact (ih h).trans (List.suffix_cons p ps)

/-- What is left of a table for the walk from a key on. -/
def LuaPairs.behind (ps : LuaPairs Num) (key : LuaValue Num) : Option (LuaPairs Num) :=
  if key = .nil then some ps else ps.after key

theorem next_eq (ps : LuaPairs Num) (key : LuaValue Num) :
    ps.next key = (ps.behind key).map List.head? := by
  unfold LuaPairs.next LuaPairs.behind
  by_cases hkey : key = .nil
  · rw [if_pos hkey, if_pos hkey]
    rfl
  · rw [if_neg hkey, if_neg hkey]

theorem behind_isSuffix {ps post : LuaPairs Num} {key : LuaValue Num}
    (h : ps.behind key = some post) : post <:+ ps := by
  unfold LuaPairs.behind at h
  by_cases hkey : key = .nil
  · rw [if_pos hkey] at h
    obtain rfl := Option.some.inj h
    exact List.suffix_refl ps
  · rw [if_neg hkey] at h
    exact after_isSuffix h

theorem next_eq_some {ps : LuaPairs Num} {key : LuaValue Num}
    {p : Option (LuaValue Num × LuaValue Num)} (h : ps.next key = some p) :
    ∃ post, ps.behind key = some post ∧ post.head? = p := by
  rw [next_eq] at h
  exact Option.map_eq_some_iff.mp h

/-- The keys of a table: different from each other, and none is `nil`. -/
structure LuaPairs.KeysSound (ps : LuaPairs Num) : Prop where
  nodup : (ps.map Prod.fst).Nodup
  notNil : ∀ p ∈ ps, p.1 ≠ .nil

theorem after_of_notMem {pre post : LuaPairs Num} {k v : LuaValue Num} (h : ∀ p ∈ pre, p.1 ≠ k) :
    LuaPairs.after k (pre ++ (k, v) :: post) = some post := by
  induction pre with
  | nil => exact if_pos rfl
  | cons p pre ih =>
      have hp : p.1 ≠ k := h p List.mem_cons_self
      show (if p.1 = k then _ else _) = _
      rw [if_neg hp]
      exact ih fun q hq => h q (List.mem_cons_of_mem p hq)

/-- **One step of the walk**: behind the next key is what was behind its pair. -/
theorem behind_step {ps post : LuaPairs Num} (hps : ps.KeysSound) {key k v : LuaValue Num}
    (h : ps.behind key = some ((k, v) :: post)) : ps.behind k = some post := by
  obtain ⟨pre, rfl⟩ := behind_isSuffix h
  have hk : k ≠ .nil := hps.notNil (k, v) (List.mem_append_right _ List.mem_cons_self)
  have hpre : ∀ p ∈ pre, p.1 ≠ k := by
    have hnodup := hps.nodup
    rw [List.map_append, List.nodup_append] at hnodup
    exact fun p hp => hnodup.2.2 p.1 (List.mem_map_of_mem hp) k List.mem_cons_self
  unfold LuaPairs.behind
  rw [if_neg hk]
  exact after_of_notMem hpre

def LuaHeap.rawSet (h : LuaHeap Num) (t : TableRef) (k v : LuaValue Num) : LuaHeap Num :=
  { h with pairs := Function.update h.pairs t ((h.pairs t).set k v) }

theorem LuaHeap.rawSet_pairs (h : LuaHeap Num) (t : TableRef) (k v : LuaValue Num) :
    (h.rawSet t k v).pairs t = (h.pairs t).set k v := Function.update_self ..

theorem LuaHeap.rawSet_pairs_of_ne (h : LuaHeap Num) {t t' : TableRef} (hne : t' ≠ t)
    (k v : LuaValue Num) : (h.rawSet t k v).pairs t' = h.pairs t' := Function.update_of_ne hne ..

/-- Read a field with its `__index` metamethod. -/
def LuaHeap.index (h : LuaHeap Num) (t : TableRef) (k : LuaValue Num) : CallResult Num :=
  match (h.pairs t).get k with
  | .nil =>
      match h.indexMeta (.table t) with
      | some f => f k
      | none => .returned .nil
  | v => .returned v

end Tables

/-! ## §4. The C API. -/

/-- Code that runs on a Lua state outside of a protected call. -/
abbrev LuaCode (Num α : Type) := Code Bytes Fault (LuaState Num) α

section Api

variable {Num : Type} [DecidableEq Num] [LuaNumber Num]

def LuaState.push (v : LuaValue Num) (L : LuaState Num) : LuaState Num :=
  { L with stack := v :: L.stack }

def LuaState.pop (n : Nat) (L : LuaState Num) : LuaState Num := { L with stack := L.stack.drop n }

/-- The value at a negative index: `peek 1` is index -1. -/
def LuaState.peek (L : LuaState Num) (i : Nat) : LuaValue Num := (L.stack[i - 1]?).getD .nil

/-- The value at a positive index, counted from the bottom. -/
def LuaState.peekAbs (L : LuaState Num) (i : Nat) : LuaValue Num :=
  (L.stack[L.stack.length - i]?).getD .nil

/-- `lua_newtable`, `lua_createtable`. -/
def LuaState.newTable (L : LuaState Num) : LuaState Num :=
  { L with
    stack := .table L.heap.next :: L.stack
    heap := { L.heap with
      pairs := Function.update L.heap.pairs L.heap.next []
      next := L.heap.next + 1 } }

/-- `lua_setfield(L, -2, k)` on a table without metatable. -/
def LuaState.setField (k : Bytes) (L : LuaState Num) : LuaState Num :=
  match L.stack with
  | v :: .table t :: rest =>
      { L with stack := .table t :: rest, heap := L.heap.rawSet t (.string k) v }
  | _ => L

/-- `lua_rawset(L, -3)`. -/
def LuaState.rawSet (L : LuaState Num) : LuaState Num :=
  match L.stack with
  | v :: k :: .table t :: rest => { L with stack := .table t :: rest, heap := L.heap.rawSet t k v }
  | _ => L

/-- `lua_getfield(L, -1, k)`: an error without a table there, or where
`__index` raises one. -/
def luaGetField (k : Bytes) : LuaCode Num Unit := fun L =>
  match L.peek 1 with
  | .table t =>
      match L.heap.index t (.string k) with
      | .returned v => .returned () (L.push v)
      | .raised _ => .died .panic L
  | _ => .died .panic L

/-- `lua_getglobal`. -/
def luaGetGlobal (k : Bytes) : LuaCode Num Unit := fun L =>
  match L.heap.index L.globals (.string k) with
  | .returned v => .returned () (L.push v)
  | .raised _ => .died .panic L

/-- `lua_next(L, i)`: pops a key and pushes the next pair, if there is one. -/
def luaNext (i : Nat) : LuaCode Num Bool := fun L =>
  match L.peekAbs i with
  | .table t =>
      match (L.heap.pairs t).next (L.peek 1) with
      | some (some (k, v)) => .returned true (((L.pop 1).push k).push v)
      | some none => .returned false (L.pop 1)
      | none => .died .panic L
  | _ => .died .panic L

/-- `lua_tostring(L, -i)`: the slot is converted in place. -/
def luaToText (i : Nat) : LuaCode Num (Option Bytes) := fun L =>
  let v := L.peek i
  .returned v.toText { L with stack := L.stack.set (i - 1) v.converted }

end Api

end Petrel
