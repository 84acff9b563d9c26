/-
  Petrel.Lua.Args — the arguments and the errors of C functions.

  A C function that Lua calls finds its arguments on the stack, from index 1
  on, and leaves with a result or with an error.  An argument of the wrong type
  is an error of its own; `luaL_error` raises the others.  The position that
  Lua puts in front of a message is left out.
-/

import Petrel.Lua.State

namespace Petrel

/-- An error that a C function raises. -/
inductive LuaError where
  | argument (i : Nat) (expected : Bytes)   -- `luaL_checkstring`, `luaL_checknumber`
  | message (text : Bytes)                  -- `luaL_error`
  deriving DecidableEq

section Args

variable {Num : Type}

/-- The argument at an index; one that is missing is like `nil`. -/
def argAt (args : List (LuaValue Num)) (i : Nat) : LuaValue Num := args.getD (i - 1) .nil

variable [LuaNumber Num]

/-- `luaL_checkstring`, as the C string it is read as. -/
def checkString (args : List (LuaValue Num)) (i : Nat) : Except LuaError Bytes :=
  match (argAt args i).toText with
  | some s => .ok (cStr s)
  | none => .error (.argument i (bytes "string"))

/-- `luaL_checknumber`. -/
def checkNumber (args : List (LuaValue Num)) (i : Nat) : Except LuaError Num :=
  match (argAt args i).toNumber with
  | some n => .ok n
  | none => .error (.argument i (bytes "number"))

@[simp] theorem checkString_string (s : Bytes) :
    checkString [(.string s : LuaValue Num)] 1 = .ok (cStr s) := rfl

end Args

end Petrel
